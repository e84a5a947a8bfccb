import SyntaxTree.Matcher.Compile
import SyntaxTree.Proofs.Depth
import SyntaxTree.Proofs.Outlines

/-!
# `Proofs.Compilation` — a nested matcher is the list of its leaves

A raw matcher is nested to any depth, and so is what it is compiled to. Neither the nesting nor the depth of
the recursion has a meaning: compiling goes through the leaves in order and fails at the first that is no test
(`Leaves.compileAll_of_unsupported`), and what was compiled asks the leaves in order until one accepts
(`Leaves.compileAll_of_tests`). All leaves are looked at before the first of them is asked.

The depth goes first. Compiling and asking both satisfy the equations that one would write without it
(`compile_eq`, `objectAccepts_eq`), and only these are used further on.

A compiled matcher can also be put into the store as an object. That object is asked by a recursion of its own;
it accepts what the raw matcher accepts (`compileMatcher_agrees`).
-/

namespace SyntaxTree

open Store

namespace Store

variable {s s' : Store} {v w : Value} {vs items ls ks : List Value} {o : ObjectId}

/-! ## Asking in turn -/

section AnyAccepts

variable {α : Type} {ask ask' : α → Except Fault Bool}

theorem anyAccepts_cons (ask : α → Except Fault Bool) (a : α) (as : List α) :
    anyAccepts ask (a :: as) = (do if ← ask a then .ok true else anyAccepts ask as) := rfl

/-- The two parts of a list are asked one after the other. -/
theorem anyAccepts_append (ask : α → Except Fault Bool) (as bs : List α) :
    anyAccepts ask (as ++ bs) = (do if ← anyAccepts ask as then .ok true else anyAccepts ask bs) := by
  induction as with
  | nil => rfl
  | cons a as ih =>
      rw [List.cons_append, anyAccepts_cons, anyAccepts_cons, ih]
      cases ask a with
      | error e => rfl
      | ok b => cases b <;> rfl

theorem anyAccepts_singleton (ask : α → Except Fault Bool) (a : α) : anyAccepts ask [a] = ask a := by
  rw [anyAccepts_cons, anyAccepts]
  cases ask a with
  | error e => rfl
  | ok b => cases b <;> rfl

theorem anyAccepts_congr {as : List α} (h : ∀ a ∈ as, ask a = ask' a) : anyAccepts ask as = anyAccepts ask' as := by
  induction as with
  | nil => rfl
  | cons a as ih =>
      rw [anyAccepts_cons, anyAccepts_cons, h a (List.mem_cons_self ..),
        ih fun b hb => h b (List.mem_cons_of_mem _ hb)]

theorem settles_anyAccepts (h : ∀ a, Settles (ask a) (ask' a)) (as : List α) :
    Settles (anyAccepts ask as) (anyAccepts ask' as) := by
  induction as with
  | nil => exact .refl _
  | cons a as ih =>
      refine (h a).bind fun b => ?_
      cases b
      · exact ih
      · exact .refl _

/-- Where all answer, one is asked in vain or accepts. -/
theorem anyAccepts_of_answers {as : List α} (h : ∀ a ∈ as, ∃ b, ask a = .ok b) :
    ∃ b, anyAccepts ask as = .ok b ∧ (b = true ↔ ∃ a ∈ as, ask a = .ok true) := by
  induction as with
  | nil => exact ⟨false, rfl, by simp⟩
  | cons a as ih =>
      obtain ⟨first, hfirst⟩ := h a (List.mem_cons_self ..)
      obtain ⟨b, hb, hiff⟩ := ih fun c hc => h c (List.mem_cons_of_mem _ hc)
      rw [anyAccepts_cons, hfirst]
      cases first with
      | true => exact ⟨true, rfl, fun _ => ⟨a, List.mem_cons_self .., hfirst⟩, fun _ => rfl⟩
      | false =>
          refine ⟨b, hb, hiff.trans ⟨?_, ?_⟩⟩
          · rintro ⟨c, hc, haccepts⟩
            exact ⟨c, List.mem_cons_of_mem _ hc, haccepts⟩
          · rintro ⟨c, hc, haccepts⟩
            rcases List.mem_cons.mp hc with rfl | hmem
            · rw [hfirst] at haccepts
              cases haccepts
            · exact ⟨c, hmem, haccepts⟩

end AnyAccepts

/-! ## Compiling without a depth -/

/-- The raw matchers in a collection. -/
def alternatives? (s : Store) (v : Value) : Option (List Value) :=
  match s.object? v with
  | some (.collection _ items) => some items
  | _ => none

/-- Compiles what is not a collection. -/
def compileLeaf (s : Store) (v : Value) : Except Fault Matcher :=
  match v, s.object? v with
  | .text t, _ => .ok (.equals t)
  | .pattern p, _ => .ok (.search p)
  | .object o, some (.matcher ..) => .ok (.given o)
  | v, _ => .error (.unsupportedMatcher (s.kindName v))

/-- Compiles a raw matcher, if `compile` does so for the members of a collection. -/
def compileStep (s : Store) (compile : Value → Except Fault Matcher) (v : Value) : Except Fault Matcher :=
  match s.alternatives? v with
  | some items => .anyOf <$> compileAll compile items
  | none => s.compileLeaf v

theorem compileWithin_succ (s : Store) (k : Nat) : s.compileWithin (k + 1) = s.compileStep (s.compileWithin k) := by
  funext v
  cases v with
  | object o =>
      cases h : s.object o <;> simp [compileWithin, compileStep, compileLeaf, alternatives?, object?, h]
  | _ => rfl

theorem settles_compileAll {f g : Value → Except Fault Matcher} (h : ∀ v, Settles (f v) (g v)) (vs : List Value) :
    Settles (compileAll f vs) (compileAll g vs) := by
  induction vs with
  | nil => exact .refl _
  | cons v vs ih => exact (h v).bind fun _ => ih.bind fun _ => .refl _

theorem answered_compileLeaf (s : Store) (v : Value) : Answered (s.compileLeaf v) := by
  unfold compileLeaf Answered
  split <;> simp

theorem alternatives?_eq_none (h : ∀ o, v = .object o → s.objects.size ≤ o) : s.alternatives? v = none := by
  cases v with
  | object o => simp [alternatives?, object?, object_of_size_le s (h o rfl)]
  | _ => rfl

theorem deepening_compile (s : Store) : Deepening s.compileStep s.compileWithin s.objects.size where
  zero _ := rfl
  succ := s.compileWithin_succ
  mono f g h v := by
    unfold compileStep
    split
    · exact (settles_compileAll h _).map
    · exact .refl _
  flat f v h := by
    unfold compileStep
    rw [alternatives?_eq_none h]
    exact s.answered_compileLeaf v

/-- **Compiling asks for the members of a collection to be compiled**, however deep the nesting is. -/
theorem compile_eq (s : Store) (v : Value) : s.compile v = s.compileStep s.compile v :=
  congrFun s.deepening_compile.fixed v

theorem compile_collection (h : s.alternatives? v = some items) :
    s.compile v = .anyOf <$> compileAll s.compile items := by
  rw [compile_eq, compileStep, h]

theorem compile_leaf (h : s.alternatives? v = none) : s.compile v = s.compileLeaf v := by
  rw [compile_eq, compileStep, h]

/-! ## Asking without a depth -/

/-- Whether a value that should be a matcher object accepts a type, if `ask` says so of the members of a
choice. What is not a choice asks nothing. -/
def acceptStep (s : Store) (type : Value) (ask : Value → Except Fault Bool) (v : Value) : Except Fault Bool :=
  match s.object? v with
  | some (.matcher .anyOf target) => do
    let items ← s.items target
    anyAccepts ask items
  | _ => s.valueAccepts type 1 v

theorem valueAccepts_succ (s : Store) (type : Value) (k : Nat) :
    s.valueAccepts type (k + 1) = s.acceptStep type (s.valueAccepts type k) := by
  funext v
  unfold acceptStep valueAccepts
  cases s.object? v with
  | none => rfl
  | some x =>
      cases x with
      | matcher kind target => cases kind <;> rfl
      | _ => rfl

theorem refusal_ne_endless (s : Store) (v : Value) (operation : String) : s.refusal v operation ≠ .endless := by
  unfold refusal
  split
  · exact fun h => (by cases h)
  · unfold missing
    split
    · exact fun h => (by cases h)
    · split <;> exact fun h => (by cases h)
    · exact fun h => (by cases h)

theorem deepening_valueAccepts (s : Store) (type : Value) :
    Deepening (s.acceptStep type) (s.valueAccepts type) s.objects.size where
  zero _ := rfl
  succ := s.valueAccepts_succ type
  mono f g h v := by
    unfold acceptStep
    split
    · exact (Settles.refl _).bind fun items => settles_anyAccepts h items
    · exact .refl _
  flat f v h := by
    have hobject : s.object? v = none ∨ s.object? v = some .plain := by
      cases v with
      | object o => exact Or.inr (congrArg some (object_of_size_le s (h o rfl)))
      | _ => exact Or.inl rfl
    have hrefused : Answered (.error (s.refusal v "matches") : Except Fault Bool) :=
      fun heq => s.refusal_ne_endless v "matches" (Except.error.inj heq)
    unfold acceptStep valueAccepts
    rcases hobject with hnone | hplain
    · rw [hnone]
      exact hrefused
    · rw [hplain]
      exact hrefused

/-- **A matcher object asks what it holds**, however deep its choices are nested. -/
theorem objectAccepts_eq (s : Store) (v type : Value) :
    s.objectAccepts v type = s.acceptStep type (fun w => s.objectAccepts w type) v :=
  congrFun (s.deepening_valueAccepts type).fixed v

theorem objectAccepts_anyOf {target : Value} (type : Value) (h : s.object o = .matcher .anyOf target)
    (hitems : s.items target = .ok items) :
    s.objectAccepts (.object o) type = anyAccepts (fun w => s.objectAccepts w type) items := by
  rw [objectAccepts_eq, acceptStep, object?, h]
  show (s.items target >>= fun items => anyAccepts _ items) = _
  rw [hitems]
  rfl

theorem objectAccepts_pattern {p : Pattern} (type : Value) (h : s.object o = .matcher .pattern (.pattern p)) :
    s.objectAccepts (.object o) type = .ok (foundIn p type) := by
  rw [objectAccepts_eq, acceptStep, object?, h, valueAccepts, object?, h]

/-! ## Leaves -/

/-- What is left of some raw matchers when the members of collections take the place of these. -/
inductive Leaves (s : Store) : List Value → List Value → Prop
  | nil : Leaves s [] []
  | leaf {v : Value} {vs ls : List Value} : s.alternatives? v = none → Leaves s vs ls →
      Leaves s (v :: vs) (v :: ls)
  | collection {v : Value} {items ks vs ls : List Value} : s.alternatives? v = some items →
      Leaves s items ks → Leaves s vs ls → Leaves s (v :: vs) (ks ++ ls)

/-- A raw matcher is a member of a collection. -/
def MemberOf (s : Store) (w v : Value) : Prop := ∃ items, s.alternatives? v = some items ∧ w ∈ items

theorem Leaves.cons (hv : s.Leaves [v] ks) (hvs : s.Leaves vs ls) : s.Leaves (v :: vs) (ks ++ ls) := by
  cases hv with
  | leaf hleaf hnil =>
      cases hnil
      exact .leaf hleaf hvs
  | collection hitems hinside hnil =>
      cases hnil
      rw [List.append_nil]
      exact .collection hitems hinside hvs

theorem Leaves.acc (h : s.Leaves vs ls) : ∀ v ∈ vs, Acc s.MemberOf v := by
  induction h with
  | nil => exact fun v hv => absurd hv List.not_mem_nil
  | leaf hleaf _ ih =>
      refine List.forall_mem_cons.mpr ⟨.intro _ fun u hu => ?_, ih⟩
      obtain ⟨items, hitems, -⟩ := hu
      cases hleaf.symm.trans hitems
  | collection hitems _ _ ihitems ih =>
      refine List.forall_mem_cons.mpr ⟨.intro _ fun u hu => ?_, ih⟩
      obtain ⟨items, hitems', hmem⟩ := hu
      cases hitems.symm.trans hitems'
      exact ihitems u hmem

/-- **What is nested to some depth is what has leaves.** -/
theorem exists_leaves_iff : (∃ ls, s.Leaves [v] ls) ↔ Acc s.MemberOf v := by
  refine ⟨fun ⟨ls, h⟩ => h.acc v (List.mem_singleton_self v), fun h => ?_⟩
  induction h with
  | intro v _ ih =>
      cases hitems : s.alternatives? v with
      | none => exact ⟨[v], .leaf hitems .nil⟩
      | some items =>
          have hall : ∀ vs, (∀ w ∈ vs, w ∈ items) → ∃ ls, s.Leaves vs ls := by
            intro vs hvs
            induction vs with
            | nil => exact ⟨[], .nil⟩
            | cons w vs ihvs =>
                obtain ⟨hw, hrest⟩ := List.forall_mem_cons.mp hvs
                obtain ⟨ks, hks⟩ := ih w ⟨items, hitems, hw⟩
                obtain ⟨ls, hls⟩ := ihvs hrest
                exact ⟨ks ++ ls, hks.cons hls⟩
          obtain ⟨ls, hls⟩ := hall items fun w hw => hw
          exact ⟨ls ++ [], .collection hitems hls .nil⟩

/-- What a test on types can be made of. -/
inductive IsTest (s : Store) : Value → Prop
  | text (t : String) : IsTest s (.text t)
  | pattern (p : Pattern) : IsTest s (.pattern p)
  | matcher (o : ObjectId) (kind : MatcherKind) (target : Value) : s.object o = .matcher kind target →
      IsTest s (.object o)

/-- What a leaf accepts: the same text, a text in which a pattern is found, or what a matcher object says. -/
inductive LeafAccepts (s : Store) (type : Value) : Value → Prop
  | text (t : String) : type = .text t → LeafAccepts s type (.text t)
  | pattern (p : Pattern) (t : String) : type = .text t → p.occursIn t = true → LeafAccepts s type (.pattern p)
  | matcher (o : ObjectId) : s.objectAccepts (.object o) type = .ok true → LeafAccepts s type (.object o)

theorem IsTest.alternatives? (h : s.IsTest v) : s.alternatives? v = none := by
  cases h with
  | text t => rfl
  | pattern p => rfl
  | matcher o kind target ho => simp [Store.alternatives?, object?, ho]

theorem IsTest.compile (h : s.IsTest v) : ∃ m, s.compile v = .ok m := by
  rw [compile_leaf h.alternatives?]
  cases h with
  | text t => exact ⟨.equals t, rfl⟩
  | pattern p => exact ⟨.search p, rfl⟩
  | matcher o kind target ho => exact ⟨.given o, by simp [compileLeaf, object?, ho]⟩

/-- What is no test is refused by the name of its class. -/
theorem compile_of_not_isTest (hleaf : s.alternatives? v = none) (h : ¬ s.IsTest v) :
    s.compile v = .error (.unsupportedMatcher (s.kindName v)) := by
  rw [compile_leaf hleaf]
  cases v with
  | text t => exact absurd (.text t) h
  | pattern p => exact absurd (.pattern p) h
  | object o =>
      cases ho : s.object o with
      | matcher kind target => exact absurd (.matcher o kind target ho) h
      | _ => simp [compileLeaf, object?, ho]
  | _ => rfl

theorem matchesType_of_compile {m : Matcher} (h : s.compile v = .ok m) (type : Value) :
    s.matchesType v type = s.accepts type m := by
  rw [matchesType, h]
  rfl

theorem matchesType_of_error {e : Fault} (h : s.compile v = .error e) (type : Value) :
    s.matchesType v type = .error e := by
  rw [matchesType, h]
  rfl

/-- A leaf is asked what it accepts, and if it is a matcher object it has to answer. -/
theorem IsTest.matchesType {type : Value} (h : s.IsTest v)
    (hanswers : ∀ o, v = .object o → ∃ b, s.objectAccepts (.object o) type = .ok b) :
    ∃ b, s.matchesType v type = .ok b ∧ (b = true ↔ s.LeafAccepts type v) := by
  cases h with
  | text t =>
      have hcompile : s.compile (.text t) = .ok (.equals t) := compile_leaf rfl
      refine ⟨type == .text t, by rw [matchesType_of_compile hcompile, accepts], ?_⟩
      rw [beq_iff_eq]
      exact ⟨.text t, fun h => by cases h with | text _ heq => exact heq⟩
  | pattern p =>
      have hcompile : s.compile (.pattern p) = .ok (.search p) := compile_leaf rfl
      refine ⟨foundIn p type, by rw [matchesType_of_compile hcompile, accepts], ?_⟩
      constructor
      · intro hfound
        cases type with
        | text t => exact .pattern p t rfl hfound
        | _ => cases hfound
      · intro h
        cases h with
        | pattern _ t heq hoccurs =>
            rw [heq]
            exact hoccurs
  | matcher o kind target ho =>
      obtain ⟨b, hb⟩ := hanswers o rfl
      have hleaf := (IsTest.matcher o kind target ho).alternatives?
      have hcompile : s.compile (.object o) = .ok (.given o) := by
        rw [compile_leaf hleaf]
        simp [compileLeaf, object?, ho]
      refine ⟨b, by rw [matchesType_of_compile hcompile, accepts, hb], ?_⟩
      constructor
      · intro htrue
        exact .matcher o (htrue ▸ hb)
      · intro h
        cases h with
        | matcher _ haccepts =>
            rw [hb] at haccepts
            exact Except.ok.inj haccepts

/-! ## Compiling a list of raw matchers -/

theorem compileAll_cons_ok {m : Matcher} (hv : s.compile v = .ok m) (vs : List Value) :
    compileAll s.compile (v :: vs) = (do
      let ms ← compileAll s.compile vs
      .ok (m :: ms)) := by
  show (s.compile v >>= _) = _
  rw [hv]
  rfl

theorem compileAll_cons_error {e : Fault} (hv : s.compile v = .error e) (vs : List Value) :
    compileAll s.compile (v :: vs) = .error e := by
  show (s.compile v >>= _) = _
  rw [hv]
  rfl

theorem someAccepts_cons (s : Store) (type : Value) (m : Matcher) (ms : List Matcher) :
    s.someAccepts type (m :: ms) = (do if ← s.accepts type m then .ok true else s.someAccepts type ms) := by
  rw [someAccepts]

/-- **If all leaves are tests, compiling succeeds, and what was compiled asks them in turn.** -/
theorem Leaves.compileAll_of_tests (h : s.Leaves vs ls) (htests : ∀ w ∈ ls, s.IsTest w) :
    ∃ ms, compileAll s.compile vs = .ok ms ∧
      ∀ type, s.someAccepts type ms = anyAccepts (fun w => s.matchesType w type) ls := by
  induction h with
  | nil => exact ⟨[], rfl, fun _ => rfl⟩
  | @leaf v vs ls hleaf _ ih =>
      obtain ⟨m, hm⟩ := (htests v (List.mem_cons_self ..)).compile
      obtain ⟨ms, hms, haccepts⟩ := ih fun w hw => htests w (List.mem_cons_of_mem _ hw)
      refine ⟨m :: ms, ?_, fun type => ?_⟩
      · rw [compileAll_cons_ok hm, hms]
        rfl
      · rw [someAccepts_cons, anyAccepts_cons, haccepts, matchesType_of_compile hm]
  | @collection v items ks vs ls hitems _ _ ihitems ih =>
      obtain ⟨inner, hinner, hinnerAccepts⟩ := ihitems fun w hw => htests w (List.mem_append_left _ hw)
      obtain ⟨ms, hms, haccepts⟩ := ih fun w hw => htests w (List.mem_append_right _ hw)
      have hm : s.compile v = .ok (.anyOf inner) := by
        rw [compile_collection hitems, hinner]
        rfl
      refine ⟨.anyOf inner :: ms, ?_, fun type => ?_⟩
      · rw [compileAll_cons_ok hm, hms]
        rfl
      · rw [someAccepts_cons, anyAccepts_append, ← hinnerAccepts, ← haccepts, accepts]

/-- **Compiling fails at the first leaf that is no test**, whatever comes after it. -/
theorem Leaves.compileAll_of_unsupported {good rest : List Value} (h : s.Leaves vs ls)
    (hsplit : ls = good ++ w :: rest) (hgood : ∀ v ∈ good, s.IsTest v) (hw : ¬ s.IsTest w) :
    compileAll s.compile vs = .error (.unsupportedMatcher (s.kindName w)) := by
  induction h generalizing good rest with
  | nil => exact absurd hsplit (by simp)
  | @leaf v vs ls hleaf _ ih =>
      rcases List.cons_eq_append_iff.mp hsplit with ⟨rfl, hfirst⟩ | ⟨tests, rfl, hrest⟩
      · obtain ⟨rfl, -⟩ := List.cons.inj hfirst
        exact compileAll_cons_error (compile_of_not_isTest hleaf hw) vs
      · obtain ⟨m, hm⟩ := (hgood v (List.mem_cons_self ..)).compile
        rw [compileAll_cons_ok hm, ih hrest fun u hu => hgood u (List.mem_cons_of_mem _ hu)]
        rfl
  | @collection v items ks vs ls hitems hinside _ ihitems ih =>
      rcases List.append_eq_append_iff.mp hsplit with ⟨tests, rfl, hrest⟩ | ⟨more, rfl, hmore⟩
      · -- all leaves of the collection are tests
        obtain ⟨inner, hinner, -⟩ := hinside.compileAll_of_tests fun u hu => hgood u (List.mem_append_left _ hu)
        have hm : s.compile v = .ok (.anyOf inner) := by
          rw [compile_collection hitems, hinner]
          rfl
        rw [compileAll_cons_ok hm, ih hrest fun u hu => hgood u (List.mem_append_right _ hu)]
        rfl
      · cases more with
        | nil =>
            obtain ⟨inner, hinner, -⟩ := hinside.compileAll_of_tests fun u hu => hgood u (by simpa using hu)
            have hm : s.compile v = .ok (.anyOf inner) := by
              rw [compile_collection hitems, hinner]
              rfl
            have hrest : ls = [] ++ w :: rest := hmore.symm
            rw [compileAll_cons_ok hm, ih hrest fun u hu => absurd hu (by simp)]
            rfl
        | cons u more =>
            obtain ⟨rfl, -⟩ := List.cons.inj hmore
            refine compileAll_cons_error ?_ vs
            rw [compile_collection hitems, ihitems rfl hgood]
            rfl

/-- A single raw matcher that is nested over tests is compiled. -/
theorem Leaves.compile_of_tests (h : s.Leaves [v] ls) (htests : ∀ w ∈ ls, s.IsTest w) :
    ∃ m, s.compile v = .ok m ∧ ∀ type, s.accepts type m = anyAccepts (fun w => s.matchesType w type) ls := by
  obtain ⟨ms, hms, haccepts⟩ := h.compileAll_of_tests htests
  cases hv : s.compile v with
  | error e =>
      rw [compileAll_cons_error hv] at hms
      cases hms
  | ok m =>
      rw [compileAll_cons_ok hv] at hms
      obtain rfl : [m] = ms := Except.ok.inj hms
      refine ⟨m, rfl, fun type => ?_⟩
      rw [← haccepts type, someAccepts_cons, someAccepts]
      cases s.accepts type m with
      | error e => rfl
      | ok b => cases b <;> rfl

theorem Leaves.compile_of_unsupported {good rest : List Value} (h : s.Leaves [v] ls)
    (hsplit : ls = good ++ w :: rest) (hgood : ∀ v ∈ good, s.IsTest v) (hw : ¬ s.IsTest w) :
    s.compile v = .error (.unsupportedMatcher (s.kindName w)) := by
  have hall := h.compileAll_of_unsupported hsplit hgood hw
  cases hv : s.compile v with
  | error e =>
      rw [compileAll_cons_error hv] at hall
      rw [Except.error.inj hall]
  | ok m =>
      rw [compileAll_cons_ok hv] at hall
      cases hall

/-- **A nested matcher is asked as its leaves are, in turn.** -/
theorem Leaves.matchesType_eq (h : s.Leaves [v] ls) (htests : ∀ w ∈ ls, s.IsTest w) (type : Value) :
    s.matchesType v type = anyAccepts (fun w => s.matchesType w type) ls := by
  obtain ⟨m, hm, haccepts⟩ := h.compile_of_tests htests
  rw [matchesType_of_compile hm, haccepts]

/-- A leaf that is no test is the first such, or comes after it. -/
theorem exists_first_unsupported (h : ¬ ∀ w ∈ ls, s.IsTest w) :
    ∃ good w rest, ls = good ++ w :: rest ∧ (∀ v ∈ good, s.IsTest v) ∧ ¬ s.IsTest w := by
  induction ls with
  | nil => exact absurd (fun w hw => absurd hw (by simp)) h
  | cons w ls ih =>
      by_cases hw : s.IsTest w
      · have hrest : ¬ ∀ u ∈ ls, s.IsTest u := by
          intro hall
          refine h fun u hu => ?_
          rcases List.mem_cons.mp hu with rfl | hmem
          · exact hw
          · exact hall u hmem
        obtain ⟨good, u, rest, rfl, hgood, hu⟩ := ih hrest
        refine ⟨w :: good, u, rest, rfl, fun v hv => ?_, hu⟩
        rcases List.mem_cons.mp hv with rfl | hmem
        · exact hw
        · exact hgood v hmem
      · exact ⟨[], w, ls, rfl, fun v hv => absurd hv (by simp), hw⟩

/-! ## Matchers as objects -/

theorem object_of_emptyTuple? (h : s.emptyTuple? = some o) : s.object o = .collection .tuple [] := by
  obtain ⟨hlt, hmatches, -⟩ := Array.findIdx?_eq_some_iff_getElem.mp h
  have hobject : s.object o = s.objects[o] := by simp [object, Array.getD_eq_getD_getElem?, hlt]
  rw [hobject]
  split at hmatches
  · assumption
  · cases hmatches

/-- A tuple is made, or there is one without items already. -/
theorem allocateTuple_ok (s : Store) (items : List Value) : ∃ o s', Run.allocateTuple items s = .ok (.object o) s' ∧
    s.Allocates s' ∧ s'.object o = .collection .tuple items := by
  have hmade : ∃ o s', Run.allocate (.collection .tuple items) s = .ok (.object o) s' ∧ s.Allocates s' ∧
      s'.object o = .collection .tuple items :=
    ⟨s.objects.size, _, rfl, allocates_addObject s _, object_addObject_self s _⟩
  unfold Run.allocateTuple
  split
  · exact ⟨_, s, rfl, .refl s, object_of_emptyTuple? ‹_›⟩
  · exact hmade

theorem writeMatchers_cons {m : Matcher} {ms : List Matcher} {s₁ s₂ : Store} (hv : writeMatcher m s = .ok v s₁)
    (hvs : writeMatchers ms s₁ = .ok vs s₂) : writeMatchers (m :: ms) s = .ok (v :: vs) s₂ := by
  rw [writeMatchers, Run.bind_of_ok hv, Run.bind_of_ok hvs]
  rfl

mutual

theorem writeMatcher_ok (s : Store) : (m : Matcher) → ∃ v s', writeMatcher m s = .ok v s' ∧ s.Allocates s'
  | .equals t => ⟨_, _, by rw [writeMatcher]; rfl, allocates_addObject s _⟩
  | .search p => ⟨_, _, by rw [writeMatcher]; rfl, allocates_addObject s _⟩
  | .anyOf ms => by
      obtain ⟨vs, s₁, hvs, hs₁⟩ := writeMatchers_ok s ms
      obtain ⟨o, s₂, ho, hs₂, -⟩ := allocateTuple_ok s₁ vs
      refine ⟨.object s₂.objects.size, s₂.addObject (.matcher .anyOf (.object o)), ?_,
        hs₁.trans (hs₂.trans (allocates_addObject s₂ _))⟩
      rw [writeMatcher, Run.bind_of_ok hvs, Run.bind_of_ok ho]
      rfl
  | .given o => ⟨.object o, s, by rw [writeMatcher]; rfl, .refl s⟩

theorem writeMatchers_ok (s : Store) : (ms : List Matcher) → ∃ vs s', writeMatchers ms s = .ok vs s' ∧ s.Allocates s'
  | [] => ⟨[], s, by rw [writeMatchers]; rfl, .refl s⟩
  | m :: ms => by
      obtain ⟨v, s₁, hv, hs₁⟩ := writeMatcher_ok s m
      obtain ⟨vs, s₂, hvs, hs₂⟩ := writeMatchers_ok s₁ ms
      exact ⟨v :: vs, s₂, writeMatchers_cons hv hvs, hs₁.trans hs₂⟩

end

theorem compileMatcher_of_compile {m : Matcher} (h : s.compile v = .ok m) :
    compileMatcher v s = writeMatcher m s := Run.bind_of_ok (Run.check_of_ok h)

theorem compileMatcher_of_error {e : Fault} (h : s.compile v = .error e) : compileMatcher v s = .error e s :=
  Run.bind_of_error (Run.check_of_error h)

/-- A matcher object whose kind and target fit each other. -/
inductive WellBuilt (s : Store) : Value → Prop
  | string (o : ObjectId) (t : String) : s.object o = .matcher .string (.text t) → WellBuilt s (.object o)
  | pattern (o : ObjectId) (p : Pattern) : s.object o = .matcher .pattern (.pattern p) → WellBuilt s (.object o)
  | anyOf (o : ObjectId) (target : Value) (items : List Value) : s.object o = .matcher .anyOf target →
      s.items target = .ok items → (∀ w ∈ items, WellBuilt s w) → WellBuilt s (.object o)

/-- Such an object has an answer for every type. -/
theorem WellBuilt.answers (h : s.WellBuilt v) (type : Value) : ∃ b, s.objectAccepts v type = .ok b := by
  induction h with
  | string o t ho => exact ⟨_, objectAccepts_text s o t type ho⟩
  | pattern o p ho => exact ⟨_, objectAccepts_pattern type ho⟩
  | anyOf o target items ho hitems _ ih =>
      obtain ⟨b, hb, -⟩ := anyAccepts_of_answers ih
      exact ⟨b, (objectAccepts_anyOf type ho hitems).trans hb⟩

/-- What is made later does not matter to it. -/
theorem WellBuilt.mono (h : s.WellBuilt v) (hs : s.Extends s') :
    s'.WellBuilt v ∧ ∀ type, s'.objectAccepts v type = s.objectAccepts v type := by
  induction h with
  | string o t ho =>
      have ho' := object_of_extends hs ho (fun heq => by cases heq)
      refine ⟨.string o t ho', fun type => ?_⟩
      rw [objectAccepts_text s' o t type ho', objectAccepts_text s o t type ho]
  | pattern o p ho =>
      have ho' := object_of_extends hs ho (fun heq => by cases heq)
      refine ⟨.pattern o p ho', fun type => ?_⟩
      rw [objectAccepts_pattern type ho', objectAccepts_pattern type ho]
  | anyOf o target items ho hitems _ ih =>
      have ho' := object_of_extends hs ho (fun heq => by cases heq)
      have hitems' := items_of_extends hs hitems
      refine ⟨.anyOf o target items ho' hitems' fun w hw => (ih w hw).1, fun type => ?_⟩
      rw [objectAccepts_anyOf type ho' hitems', objectAccepts_anyOf type ho hitems]
      exact anyAccepts_congr fun w hw => (ih w hw).2 type

/-- Matcher objects of `u` that, asked in turn, answer as the leaves `ls` do in `s`. -/
structure SpeaksFor (s u : Store) (ws ls : List Value) : Prop where
  wellBuilt : ∀ w ∈ ws, u.WellBuilt w
  accepts : ∀ type, anyAccepts (fun w => u.objectAccepts w type) ws = anyAccepts (fun w => s.matchesType w type) ls

theorem SpeaksFor.mono {u u' : Store} (h : s.SpeaksFor u vs ls) (hu : u.Extends u') : s.SpeaksFor u' vs ls where
  wellBuilt w hw := ((h.wellBuilt w hw).mono hu).1
  accepts type := by
    rw [← h.accepts]
    exact anyAccepts_congr fun w hw => ((h.wellBuilt w hw).mono hu).2 type

theorem SpeaksFor.append {u : Store} {ws : List Value} (h : s.SpeaksFor u vs ks) (h' : s.SpeaksFor u ws ls) :
    s.SpeaksFor u (vs ++ ws) (ks ++ ls) where
  wellBuilt w hw := (List.mem_append.mp hw).elim (h.wellBuilt w) (h'.wellBuilt w)
  accepts type := by rw [anyAccepts_append, anyAccepts_append, h.accepts, h'.accepts]

theorem SpeaksFor.objectAccepts {u : Store} (h : s.SpeaksFor u [w] ls) (type : Value) :
    u.objectAccepts w type = anyAccepts (fun w => s.matchesType w type) ls := by
  rw [← h.accepts, anyAccepts_singleton]

/-- The object of a test speaks for it. -/
theorem IsTest.writeMatcher {m : Matcher} (h : s.IsTest v) (hbuilt : ∀ o, v = .object o → s.WellBuilt v)
    (hm : s.compile v = .ok m) (hs : s.Extends s') :
    ∃ w u, writeMatcher m s' = .ok w u ∧ s'.Allocates u ∧ s.SpeaksFor u [w] [v] := by
  -- one object speaks for one leaf
  have hsingle {w : Value} {u : Store} (hw : u.WellBuilt w)
      (haccepts : ∀ type, u.objectAccepts w type = s.accepts type m) : s.SpeaksFor u [w] [v] := by
    refine ⟨fun x hx => List.mem_singleton.mp hx ▸ hw, fun type => ?_⟩
    rw [anyAccepts_singleton, anyAccepts_singleton, haccepts, matchesType_of_compile hm]
  rw [compile_leaf h.alternatives?] at hm
  cases h with
  | text t =>
      obtain rfl : Matcher.equals t = m := Except.ok.inj hm
      have ho := object_addObject_self s' (.matcher .string (.text t))
      refine ⟨_, _, by rw [SyntaxTree.writeMatcher]; rfl, allocates_addObject s' _,
        hsingle (.string _ t ho) fun type => ?_⟩
      rw [objectAccepts_text _ _ t type ho, Store.accepts]
  | pattern p =>
      obtain rfl : Matcher.search p = m := Except.ok.inj hm
      have ho := object_addObject_self s' (.matcher .pattern (.pattern p))
      refine ⟨_, _, by rw [SyntaxTree.writeMatcher]; rfl, allocates_addObject s' _,
        hsingle (.pattern _ p ho) fun type => ?_⟩
      rw [objectAccepts_pattern type ho, Store.accepts]
  | matcher o kind target ho =>
      obtain rfl : Matcher.given o = m := by simpa [compileLeaf, object?, ho] using hm
      obtain ⟨hkept, hsame⟩ := (hbuilt o rfl).mono hs
      refine ⟨_, _, by rw [SyntaxTree.writeMatcher]; rfl, .refl s', hsingle hkept fun type => ?_⟩
      rw [hsame, Store.accepts]

/-- The object of a choice is made after those of its members, and speaks for all their leaves. -/
theorem SpeaksFor.writeMatcher_anyOf {ms : List Matcher} {s₁ : Store} (h : s.SpeaksFor s₁ vs ls)
    (hvs : writeMatchers ms s' = .ok vs s₁) :
    ∃ w s₂, writeMatcher (.anyOf ms) s' = .ok w s₂ ∧ s₁.Allocates s₂ ∧ s.SpeaksFor s₂ [w] ls := by
  obtain ⟨o, s₂, ho, hs₂, htuple⟩ := allocateTuple_ok s₁ vs
  let s₃ := s₂.addObject (.matcher .anyOf (.object o))
  have hs₃ : s₂.Allocates s₃ := allocates_addObject s₂ _
  have hchoice : s₃.object s₂.objects.size = .matcher .anyOf (.object o) := object_addObject_self s₂ _
  have hitems : s₃.items (.object o) = .ok vs := by
    have htuple' := object_of_extends hs₃.toExtends htuple (fun heq => by cases heq)
    simp [Store.items, object?, htuple']
  have hkept : s.SpeaksFor s₃ vs ls := h.mono (hs₂.trans hs₃).toExtends
  refine ⟨.object s₂.objects.size, s₃, ?_, hs₂.trans hs₃, fun w hw => ?_, fun type => ?_⟩
  · rw [writeMatcher, Run.bind_of_ok hvs, Run.bind_of_ok ho]
    rfl
  · rw [List.mem_singleton.mp hw]
    exact .anyOf _ _ vs hchoice hitems hkept.wellBuilt
  · rw [anyAccepts_singleton, objectAccepts_anyOf type hchoice hitems, hkept.accepts]

/-- **The objects that are made for raw matchers speak for the leaves.** -/
theorem Leaves.writeMatchers {ms : List Matcher} (h : s.Leaves vs ls) (htests : ∀ w ∈ ls, s.IsTest w)
    (hbuilt : ∀ o, .object o ∈ ls → s.WellBuilt (.object o)) (hms : compileAll s.compile vs = .ok ms)
    (hs : s.Extends s') : ∃ ws u, writeMatchers ms s' = .ok ws u ∧ s'.Allocates u ∧ s.SpeaksFor u ws ls := by
  induction h generalizing ms s' with
  | nil =>
      obtain rfl : [] = ms := Except.ok.inj hms
      exact ⟨[], s', by rw [SyntaxTree.writeMatchers]; rfl, .refl s', fun w hw => absurd hw (by simp), fun _ => rfl⟩
  | @leaf v vs ls hleaf _ ih =>
      have hv := htests v (List.mem_cons_self ..)
      obtain ⟨m, hm⟩ := hv.compile
      rw [compileAll_cons_ok hm] at hms
      obtain ⟨rest, hrest, hcons⟩ := exists_of_bind_ok hms
      obtain rfl : m :: rest = ms := Except.ok.inj hcons
      obtain ⟨w, u₁, hw, hu₁, hspeaks⟩ :=
        hv.writeMatcher (fun o ho => ho ▸ hbuilt o (ho ▸ List.mem_cons_self ..)) hm hs
      obtain ⟨ws, u₂, hws, hu₂, hrestSpeaks⟩ := ih (fun w hw => htests w (List.mem_cons_of_mem _ hw))
        (fun o ho => hbuilt o (List.mem_cons_of_mem _ ho)) hrest (hs.trans hu₁.toExtends)
      exact ⟨w :: ws, u₂, writeMatchers_cons hw hws, hu₁.trans hu₂, (hspeaks.mono hu₂.toExtends).append hrestSpeaks⟩
  | @collection v items ks vs ls hitems hinside _ ihitems ih =>
      obtain ⟨inner, hinner, -⟩ := hinside.compileAll_of_tests fun w hw => htests w (List.mem_append_left _ hw)
      have hm : s.compile v = .ok (.anyOf inner) := by
        rw [compile_collection hitems, hinner]
        rfl
      rw [compileAll_cons_ok hm] at hms
      obtain ⟨rest, hrest, hcons⟩ := exists_of_bind_ok hms
      obtain rfl : .anyOf inner :: rest = ms := Except.ok.inj hcons
      obtain ⟨us, u₁, hus, hu₁, hinnerSpeaks⟩ := ihitems (fun w hw => htests w (List.mem_append_left _ hw))
        (fun o ho => hbuilt o (List.mem_append_left _ ho)) hinner hs
      obtain ⟨w, u₂, hw, hu₂, hspeaks⟩ := hinnerSpeaks.writeMatcher_anyOf hus
      obtain ⟨ws, u₃, hws, hu₃, hrestSpeaks⟩ := ih (fun w hw => htests w (List.mem_append_right _ hw))
        (fun o ho => hbuilt o (List.mem_append_right _ ho)) hrest (hs.trans (hu₁.trans hu₂).toExtends)
      exact ⟨w :: ws, u₃, writeMatchers_cons hw hws, hu₁.trans (hu₂.trans hu₃),
        (hspeaks.mono hu₃.toExtends).append hrestSpeaks⟩

theorem Leaves.tests_of_compile {m : Matcher} (h : s.Leaves [v] ls) (hm : s.compile v = .ok m) :
    ∀ w ∈ ls, s.IsTest w := by
  refine Classical.byContradiction fun hnot => ?_
  obtain ⟨good, w, rest, hsplit, hgood, hw⟩ := exists_first_unsupported hnot
  rw [h.compile_of_unsupported hsplit hgood hw] at hm
  cases hm

/-- **The object that a raw matcher is compiled to accepts what the raw matcher accepts**, and is well built. -/
theorem compileMatcher_agrees {u : Store} (h : s.Leaves [v] ls)
    (hbuilt : ∀ o, .object o ∈ ls → s.WellBuilt (.object o)) (hrun : compileMatcher v s = .ok w u) :
    s.Allocates u ∧ u.WellBuilt w ∧ ∀ type, u.objectAccepts w type = s.matchesType v type := by
  cases hm : s.compile v with
  | error e =>
      rw [compileMatcher_of_error hm] at hrun
      cases hrun
  | ok m =>
      have htests := h.tests_of_compile hm
      have hms : compileAll s.compile [v] = .ok [m] := compileAll_cons_ok hm []
      obtain ⟨ws, u', hws, hu', hspeaks⟩ := h.writeMatchers htests hbuilt hms (.refl s)
      rw [compileMatcher_of_compile hm] at hrun
      have hone : writeMatchers [m] s = .ok [w] u := writeMatchers_cons hrun (by rw [writeMatchers]; rfl)
      obtain ⟨rfl, rfl⟩ : [w] = ws ∧ u = u' := by
        rw [hone] at hws
        cases hws
        exact ⟨rfl, rfl⟩
      refine ⟨hu', hspeaks.wellBuilt w (List.mem_singleton_self w), fun type => ?_⟩
      rw [hspeaks.objectAccepts, h.matchesType_eq htests]

/-! ## The meaning of a nested matcher -/

/-- Where all leaves are tests and have an answer, one of them accepts or all are asked in vain. -/
theorem Leaves.answers (h : s.Leaves [v] ls) (htests : ∀ w ∈ ls, s.IsTest w) (type : Value)
    (hanswers : ∀ o, .object o ∈ ls → ∃ b, s.objectAccepts (.object o) type = .ok b) :
    ∃ b, s.matchesType v type = .ok b ∧ (b = true ↔ ∃ w ∈ ls, s.LeafAccepts type w) := by
  have hleaf : ∀ w ∈ ls, ∃ b, s.matchesType w type = .ok b ∧ (b = true ↔ s.LeafAccepts type w) :=
    fun w hw => (htests w hw).matchesType fun o ho => hanswers o (ho ▸ hw)
  have hall : ∃ b, anyAccepts (fun w => s.matchesType w type) ls = .ok b ∧
      (b = true ↔ ∃ w ∈ ls, s.matchesType w type = .ok true) :=
    anyAccepts_of_answers fun w hw => (hleaf w hw).imp fun _ h => h.1
  obtain ⟨b, hb, hiff⟩ := hall
  refine ⟨b, (h.matchesType_eq htests type).trans hb, hiff.trans ?_⟩
  refine exists_congr fun w => and_congr_right fun hw => ?_
  obtain ⟨c, hc, haccepts⟩ := hleaf w hw
  rw [hc, ← haccepts]
  exact ⟨Except.ok.inj, congrArg _⟩

/-- **A nested matcher means: any of its leaves.** It is compiled if and only if all leaves are texts, patterns
and matcher objects, and otherwise refused with the name of the class of the first leaf that is none of these.
It accepts a type if and only if some leaf does, provided that its matcher objects have an answer; and what it is
compiled to accepts the same. -/
theorem compileMatcher_matchesType_of_leaves (h : s.Leaves [v] ls) :
    ((∃ w s', compileMatcher v s = .ok w s') ↔ ∀ w ∈ ls, s.IsTest w) ∧
    (∀ good w rest, ls = good ++ w :: rest → (∀ u ∈ good, s.IsTest u) → ¬ s.IsTest w →
      compileMatcher v s = .error (.unsupportedMatcher (s.kindName w)) s ∧
      ∀ type, s.matchesType v type = .error (.unsupportedMatcher (s.kindName w))) ∧
    (∀ type, (∀ w ∈ ls, s.IsTest w) →
      (∀ o, .object o ∈ ls → ∃ b, s.objectAccepts (.object o) type = .ok b) →
      ∃ b, s.matchesType v type = .ok b ∧ (b = true ↔ ∃ w ∈ ls, s.LeafAccepts type w)) ∧
    ∀ w s', (∀ o, .object o ∈ ls → s.WellBuilt (.object o)) → compileMatcher v s = .ok w s' →
      ∀ type, s'.objectAccepts w type = s.matchesType v type := by
  refine ⟨⟨?_, fun htests => ?_⟩, fun good w rest hsplit hgood hw => ?_, fun type htests hanswers => ?_,
    fun w s' hbuilt hrun => (compileMatcher_agrees h hbuilt hrun).2.2⟩
  · rintro ⟨w, s', hrun⟩
    cases hm : s.compile v with
    | ok m => exact h.tests_of_compile hm
    | error e =>
        rw [compileMatcher_of_error hm] at hrun
        cases hrun
  · obtain ⟨m, hm, -⟩ := h.compile_of_tests htests
    obtain ⟨w, s', hw, -⟩ := writeMatcher_ok s m
    exact ⟨w, s', (compileMatcher_of_compile hm).trans hw⟩
  · have herror := h.compile_of_unsupported hsplit hgood hw
    exact ⟨compileMatcher_of_error herror, matchesType_of_error herror⟩
  · exact h.answers htests type hanswers

/-- A list of a text and a tuple of a pattern and a matcher object, and a tuple with a number next to that list. -/
def withMatchers : Store :=
  ⟨#[], #[.collection .list [.text "star", .object 1], .collection .tuple [.pattern ⟨"^b", false⟩, .object 2],
    .matcher .string (.text "moon"), .collection .tuple [.object 0, .int 3, .null]], #[], true, false⟩

theorem leaves_withMatchers :
    withMatchers.Leaves [.object 0] [.text "star", .pattern ⟨"^b", false⟩, .object 2] := by
  have htuple : withMatchers.Leaves [.object 1] [.pattern ⟨"^b", false⟩, .object 2] :=
    .collection rfl (.leaf rfl (.leaf rfl .nil)) .nil
  exact .collection rfl (.leaf rfl htuple) .nil

/-- The list is compiled, and accepts what its innermost matcher object does, and so does the object that is made for
it; the tuple is refused because of the number, which comes before the null. -/
theorem compileMatcher_matchesType_withMatchers :
    (∃ w s', compileMatcher (.object 0) withMatchers = .ok w s' ∧ s'.objectAccepts w (.text "moon") = .ok true) ∧
    withMatchers.matchesType (.object 0) (.text "moon") = .ok true ∧
    compileMatcher (.object 3) withMatchers = .error (.unsupportedMatcher "int") withMatchers := by
  have htests : ∀ w ∈ [Value.text "star", .pattern ⟨"^b", false⟩, .object 2], withMatchers.IsTest w := by
    intro w hw
    simp only [List.mem_cons, List.not_mem_nil, or_false] at hw
    rcases hw with rfl | rfl | rfl
    · exact .text _
    · exact .pattern _
    · exact .matcher 2 .string (.text "moon") rfl
  have hasked := fun type => objectAccepts_text withMatchers 2 "moon" type rfl
  have hobject {o : ObjectId} (ho : .object o ∈ [Value.text "star", .pattern ⟨"^b", false⟩, .object 2]) : o = 2 := by
    simpa using ho
  obtain ⟨hcompiles, -, hmatches, hobjects⟩ := compileMatcher_matchesType_of_leaves leaves_withMatchers
  have hmoon : withMatchers.matchesType (.object 0) (.text "moon") = .ok true := by
    obtain ⟨b, hb, hiff⟩ := hmatches (.text "moon") htests fun o ho => by
      rw [hobject ho]
      exact ⟨_, hasked _⟩
    rw [hb, hiff.mpr ⟨.object 2, by simp, .matcher 2 (hasked _)⟩]
  refine ⟨?_, hmoon, ?_⟩
  · obtain ⟨w, s', hrun⟩ := hcompiles.mpr htests
    have hbuilt : ∀ o, .object o ∈ [Value.text "star", .pattern ⟨"^b", false⟩, .object 2] →
        withMatchers.WellBuilt (.object o) := fun o ho => hobject ho ▸ .string 2 "moon" rfl
    exact ⟨w, s', hrun, (hobjects w s' hbuilt hrun _).trans hmoon⟩
  · have houter : withMatchers.Leaves [.object 3] [.text "star", .pattern ⟨"^b", false⟩, .object 2, .int 3, .null] := by
      have hmembers : withMatchers.Leaves [.object 0, .int 3, .null]
          [.text "star", .pattern ⟨"^b", false⟩, .object 2, .int 3, .null] :=
        .collection rfl (.leaf rfl (.collection rfl (.leaf rfl (.leaf rfl .nil)) .nil))
          (.leaf rfl (.leaf rfl .nil))
      exact .collection rfl hmembers .nil
    have hint : ¬ withMatchers.IsTest (.int 3) := fun h => by cases h
    exact ((compileMatcher_matchesType_of_leaves houter).2.1 _ (.int 3) [.null] rfl htests hint).1

end Store

end SyntaxTree
