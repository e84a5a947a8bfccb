import SyntaxTree.Proofs.Compilation
import SyntaxTree.Proofs.Divergence
import SyntaxTree.Proofs.Positions
import SyntaxTree.Proofs.WaysUp

/-!
# `Proofs.Searching` — four questions, one test

A search among children stops at the first that passes, a search among ancestors climbs, and one node is
asked directly; what they have in common is the test, whether a matcher accepts a type. So each of them is
expressed by asking single nodes: what is found is the child at the least position that is asked with
success (`FirstChild`), and something is above exactly if some ancestor passes.

The matcher comes before the tree. Where one of its leaves is no test all four fail in the same way, whether
there is anything to look at or not. Where all are, and its matcher objects are well built, every type has an
answer, and so has every search (`searches_agree`).

A position is another thing to search for, and the index of a child is such a position if it can be read
(`readIndex_position`). It cannot where a hint that was set by hand is no integer, or where a record about a
stale one has to show a node that cannot be shown (`searches_disagree`).
-/

namespace SyntaxTree

open Store

namespace Store

variable {s : Store} {p c n : NodeId} {m v : Value} {vs ls : List Value} {matcher : Matcher} {b : Bool}

/-! ## Searches in terms of single nodes -/

/-- A node passes if it is of the type, and something else from elsewhere if its type is accepted. -/
def Passes (s : Store) (m : Value) : Value → Prop
  | .node n => s.isType n m = .ok true
  | v => ∃ type, s.typeOf v = .ok type ∧ s.matchesType m type = .ok true

/-- What a search for a child of some type is to give: the child at the least position that is of the type, and
null if there is none. -/
inductive FirstChild (s : Store) (p : NodeId) (m : Value) : Value → Prop
  | found (i : Nat) (c : NodeId) : (s.children p)[i]? = some (.node c) → s.isType c m = .ok true →
      (∀ (j : Nat) (d : NodeId), j < i → (s.children p)[j]? = some (.node d) → s.isType d m = .ok false) →
      FirstChild s p m (.node c)
  | none : (∀ c, .node c ∈ s.children p → s.isType c m = .ok false) → FirstChild s p m .null

theorem isType_eq (s : Store) (n : NodeId) (m : Value) : s.isType n m = s.matchesType m (s.node n).type := rfl

theorem tested_node (hm : s.compile m = .ok matcher) : s.Tested matcher (.node n) b ↔ s.isType n m = .ok b := by
  rw [isType_eq, matchesType_of_compile hm]
  constructor
  · rintro ⟨type, htype, haccepts⟩
    obtain rfl := Except.ok.inj htype
    exact haccepts
  · exact fun haccepts => ⟨_, rfl, haccepts⟩

theorem passes_iff (hm : s.compile m = .ok matcher) : s.Passes m v ↔ s.Tested matcher v true := by
  cases v with
  | node n => exact (tested_node hm).symm
  | _ => simp only [Passes, Tested, matchesType_of_compile hm]

/-- An int is a position; anything else is compiled first. -/
theorem find_eq (hint : ∀ i, m ≠ .int i) : s.find p m = (do
    let matcher ← s.compile m
    let found ← s.findFirst matcher (s.children p)
    .ok (found.getD .null)) := by
  cases m with
  | int i => exact absurd rfl (hint i)
  | _ => rfl

/-- **What cannot be compiled is refused by all four**, whatever there is to be searched. -/
theorem searches_of_error {e : Fault} (hm : s.compile m = .error e) (hint : ∀ i, m ≠ .int i) (p : NodeId) :
    s.find p m = .error e ∧ s.hasType p m = .error e ∧ s.isType p m = .error e ∧ s.isInside p m = .error e := by
  refine ⟨?_, ?_, ?_, ?_⟩
  · rw [find_eq hint, hm]
    rfl
  · rw [hasType, hm]
    rfl
  · rw [isType, hm]
    rfl
  · rw [isInside, hm]
    rfl

/-- **A search among children gives the first child of the type**, if every type has an answer. -/
theorem find_firstChild (hm : s.compile m = .ok matcher) (hint : ∀ i, m ≠ .int i)
    (hanswers : ∀ type, ∃ b, s.accepts type matcher = .ok b) (hchildren : ∀ v ∈ s.children p, ∃ c, v = .node c) :
    ∃ found, s.find p m = .ok found ∧ s.FirstChild p m found ∧ s.hasType p m = .ok (decide (found ≠ .null)) := by
  have htested : ∀ v ∈ s.children p, ∃ b, s.Tested matcher v b := by
    intro v hv
    obtain ⟨c, rfl⟩ := hchildren v hv
    exact (hanswers (s.node c).type).imp fun b hb => ⟨_, rfl, hb⟩
  rw [find_eq hint, hasType, hm]
  show ∃ found, (s.findFirst matcher (s.children p) >>= _) = _ ∧ _ ∧ (s.findFirst matcher (s.children p) >>= _) = _
  rcases findFirst_cases htested with ⟨hnone, hall⟩ | ⟨i, v, hfound, hi, hv, hbefore⟩
  · rw [hnone]
    exact ⟨.null, rfl, .none fun c hc => (tested_node hm).mp (hall _ hc), rfl⟩
  · obtain ⟨c, rfl⟩ := hchildren v (List.mem_of_getElem? hi)
    rw [hfound]
    refine ⟨.node c, rfl, .found i c hi ((tested_node hm).mp hv) fun j d hj hd => ?_, rfl⟩
    exact (tested_node hm).mp (hbefore j _ hj hd)

/-- **A search among ancestors succeeds exactly if one of them passes.** -/
theorem isInside_of_wayUp (hm : s.compile m = .ok matcher) (hanswers : ∀ type, ∃ b, s.accepts type matcher = .ok b)
    (h : s.WayUp (s.parentValue p) vs) : ∃ b, s.isInside p m = .ok b ∧ (b = true ↔ ∃ a ∈ vs, s.Passes m a) := by
  have htested : ∀ v ∈ vs, ∃ b, s.Tested matcher v b := by
    intro v hv
    obtain ⟨ws, hws, -⟩ := h.of_mem hv
    cases hws with
    | up htype _ _ => exact (hanswers _).imp fun b hb => ⟨_, htype, hb⟩
  rw [h.isInside hm]
  rcases findFirst_cases htested with ⟨hnone, hall⟩ | ⟨i, v, hfound, hi, hv, -⟩
  · rw [hnone]
    refine ⟨false, rfl, fun h => absurd h Bool.false_ne_true, ?_⟩
    rintro ⟨a, ha, hpasses⟩
    obtain ⟨type, htype, haccepts⟩ := hall a ha
    obtain ⟨type', htype', haccepts'⟩ := (passes_iff hm).mp hpasses
    obtain rfl := Except.ok.inj (htype.symm.trans htype')
    cases haccepts.symm.trans haccepts'
  · rw [hfound]
    exact ⟨true, rfl, fun _ => ⟨v, List.mem_of_getElem? hi, (passes_iff hm).mpr hv⟩, fun _ => rfl⟩

/-! ## Searching for a position -/

theorem find_int (s : Store) (p : NodeId) (i : Nat) : s.find p (.int i) = .ok (((s.children p)[i]?).getD .null) := by
  show Except.ok (if 0 ≤ (i : Int) then ((s.children p)[(i : Int).toNat]?).getD .null else .null) = _
  rw [if_pos (Int.natCast_nonneg i), Int.toNat_natCast]

/-- Only the places in the list are positions. -/
theorem find_int_outside {i : Int} (hi : i < 0 ∨ (s.children p).length ≤ i) : s.find p (.int i) = .ok .null := by
  rcases Int.lt_or_le i 0 with hneg | hnonneg
  · show Except.ok (if 0 ≤ i then ((s.children p)[i.toNat]?).getD .null else .null) = _
    rw [if_neg (by omega)]
  · obtain ⟨k, rfl⟩ := Int.eq_ofNat_of_zero_le hnonneg
    rw [find_int, List.getElem?_eq_none (by omega)]
    rfl

/-- **The index of a child is a position of it**, whatever integer its hint is. -/
theorem readIndex_position (hparent : (s.node c).parent = some (.node p)) (hmem : .node c ∈ s.children p)
    (hhint : ∃ i : Int, (s.node c).hint = .int i)
    (hshown : s.logIsRead = true → ∃ shown, s.display (.node c) = .ok shown) :
    ∃ (i : Nat) (t : Store), readIndex c s = .ok (.int i) t ∧ (s.children p)[i]? = some (.node c) ∧
      ∀ q, t.children q = s.children q := by
  obtain ⟨v, t, hrun, hrehinted, hv⟩ := readIndex_under hshown hparent hhint
  obtain ⟨i, rfl, hi⟩ := hv.resolve_right fun hnot => hnot.1 hmem
  refine ⟨i, t, hrun, hi, fun q => ?_⟩
  rw [children, hrehinted.nodes_eq, ← children]

/-! ## What the searches have in common -/

/-- A matcher that is nested over tests has an answer for every type, if its matcher objects are well built. -/
theorem Leaves.accepts_answers (h : s.Leaves [m] ls) (htests : ∀ w ∈ ls, s.IsTest w)
    (hbuilt : ∀ o, .object o ∈ ls → s.WellBuilt (.object o)) :
    ∃ matcher, s.compile m = .ok matcher ∧ ∀ type, ∃ b, s.accepts type matcher = .ok b := by
  obtain ⟨matcher, hm, -⟩ := h.compile_of_tests htests
  refine ⟨matcher, hm, fun type => ?_⟩
  obtain ⟨b, hb, -⟩ := h.answers htests type fun o ho => (hbuilt o ho).answers type
  exact ⟨b, (matchesType_of_compile hm type).symm.trans hb⟩

/-- **The searches agree with what single nodes are asked.** All are refused because of the first leaf that is
no test. Otherwise what is found is the first child of the type, there is such a child exactly if something is
found, and the node is inside of the type exactly if something on its way up passes. An integer is the position
of a child, and so is the index of a child that calls the node its parent. -/
theorem searches_agree (h : s.Leaves [m] ls) (hint : ∀ i, m ≠ .int i)
    (hbuilt : ∀ o, .object o ∈ ls → s.IsTest (.object o) → s.WellBuilt (.object o))
    (hchildren : ∀ v ∈ s.children p, ∃ c, v = .node c) :
    (∀ good w rest, ls = good ++ w :: rest → (∀ u ∈ good, s.IsTest u) → ¬ s.IsTest w → ∀ n,
      s.find n m = .error (.unsupportedMatcher (s.kindName w)) ∧
      s.hasType n m = .error (.unsupportedMatcher (s.kindName w)) ∧
      s.isType n m = .error (.unsupportedMatcher (s.kindName w)) ∧
      s.isInside n m = .error (.unsupportedMatcher (s.kindName w))) ∧
    ((∀ w ∈ ls, s.IsTest w) →
      (∀ n, ∃ b, s.isType n m = .ok b) ∧
      (∃ found, s.find p m = .ok found ∧ s.FirstChild p m found ∧ s.hasType p m = .ok (decide (found ≠ .null))) ∧
      ∀ vs, s.WayUp (s.parentValue p) vs → ∃ b, s.isInside p m = .ok b ∧ (b = true ↔ ∃ a ∈ vs, s.Passes m a)) ∧
    (∀ (i : Nat) (v : Value), (s.children p)[i]? = some v → s.find p (.int i) = .ok v) ∧
    (∀ i : Int, i < 0 ∨ (s.children p).length ≤ i → s.find p (.int i) = .ok .null) ∧
    ∀ c, .node c ∈ s.children p → (s.node c).parent = some (.node p) → (∃ i : Int, (s.node c).hint = .int i) →
      (s.logIsRead = true → ∃ shown, s.display (.node c) = .ok shown) →
      ∃ (i : Int) (t : Store), (Action.read (.node c) "index").perform s = .ok (.int i) t ∧
        t.find p (.int i) = .ok (.node c) := by
  refine ⟨fun good w rest hsplit hgood hw n => ?_, fun htests => ⟨fun n => ?_, ?_, fun vs hvs => ?_⟩, ?_, ?_, ?_⟩
  · exact searches_of_error (h.compile_of_unsupported hsplit hgood hw) hint n
  · obtain ⟨matcher, hm, hanswers⟩ := h.accepts_answers htests fun o ho => hbuilt o ho (htests _ ho)
    rw [isType_eq, matchesType_of_compile hm]
    exact hanswers _
  · obtain ⟨matcher, hm, hanswers⟩ := h.accepts_answers htests fun o ho => hbuilt o ho (htests _ ho)
    exact find_firstChild hm hint hanswers hchildren
  · obtain ⟨matcher, hm, hanswers⟩ := h.accepts_answers htests fun o ho => hbuilt o ho (htests _ ho)
    exact isInside_of_wayUp hm hanswers hvs
  · intro i v hv
    rw [find_int, hv]
    rfl
  · exact fun i hi => find_int_outside hi
  · intro c hmem hparent hhint hshown
    obtain ⟨i, t, hrun, hi, hsame⟩ := readIndex_position hparent hmem hhint hshown
    refine ⟨i, t, hrun, ?_⟩
    rw [find_int, hsame, hi]
    rfl

/-- A node of some type with two children of other types, the last of which has a stale hint. -/
def withTypes : Store :=
  threeNodes .node [.assign (.node 0) "type" (.text "sky"), .assign (.node 1) "type" (.text "star"),
    .assign (.node 2) "type" (.text "moon"), .assign (.node 2) "index" (.int 7)] .empty

/-- The last child is found by its type and by its index, it is inside of the first node, and nothing is found
by a truth value. -/
theorem searches_agree_withTypes :
    withTypes.FirstChild 0 (.text "moon") (.node 2) ∧ withTypes.find 0 (.text "moon") = .ok (.node 2) ∧
      withTypes.isInside 2 (.text "sky") = .ok true ∧
      withTypes.find 1 (.bool true) = .error (.unsupportedMatcher "bool") ∧
      ∃ (i : Int) (t : Store), (Action.read (.node 2) "index").perform withTypes = .ok (.int i) t ∧
        t.find 0 (.int i) = .ok (.node 2) := by
  have hleaves : ∀ t, withTypes.Leaves [.text t] [.text t] := fun t => .leaf rfl .nil
  have htests : ∀ t, ∀ w ∈ [Value.text t], withTypes.IsTest w := fun t w hw => List.mem_singleton.mp hw ▸ .text t
  have hnodes : ∀ v ∈ withTypes.children 0, ∃ c, v = .node c := by
    intro v hv
    rcases List.mem_pair.mp (show v ∈ [Value.node 1, .node 2] from hv) with rfl | rfl
    · exact ⟨1, rfl⟩
    · exact ⟨2, rfl⟩
  have hsearch := fun t => searches_agree (p := 0) (hleaves t) (fun i hi => by cases hi)
    (fun o ho => absurd ho (by simp)) hnodes
  obtain ⟨-, hfound, -, -, hindex⟩ := hsearch "moon"
  obtain ⟨-, ⟨found, hfind, hfirst, -⟩, -⟩ := hfound (htests "moon")
  have hmoon : withTypes.find 0 (.text "moon") = .ok (.node 2) := by rw [find_eq fun i hi => by cases hi]; rfl
  obtain rfl := Except.ok.inj (hfind.symm.trans hmoon)
  have hup : withTypes.WayUp (withTypes.parentValue 2) [.node 0] := .up rfl rfl .root
  obtain ⟨-, hinside, -⟩ := searches_agree (p := 2) (hleaves "sky") (fun i hi => by cases hi)
    (fun o ho => absurd ho (by simp)) (fun v hv => absurd (show v ∈ [] from hv) (by simp))
  obtain ⟨b, hb, hiff⟩ := (hinside (htests "sky")).2.2 _ hup
  have hbool : withTypes.Leaves [.bool true] [.bool true] := .leaf rfl .nil
  obtain ⟨hrefused, -⟩ := searches_agree (p := 0) hbool (fun i hi => by cases hi)
    (fun o ho => absurd ho (by simp)) hnodes
  refine ⟨hfirst, hmoon, ?_, ?_, ?_⟩
  · have hpasses : withTypes.Passes (.text "sky") (.node 0) := rfl
    rw [hb, hiff.mpr ⟨.node 0, List.mem_singleton_self _, hpasses⟩]
  · exact (hrefused [] (.bool true) [] rfl (fun u hu => absurd hu (by simp)) (fun h => by cases h) 1).1
  · exact hindex 2 (by decide) rfl ⟨7, rfl⟩ fun hread => by cases hread

/-! ### What the searches depend on -/

/-- The last child was given a truth value for a hint. -/
def withTrueHint : Store := threeNodes .node [.assign (.node 2) "index" (.bool true)] .empty

/-- A node below an object that passes for a node, and has a parent but no type. -/
def withForeignParent : Store :=
  (Action.performAll [.create .node .empty, .assign (.object 0) "parent" .null,
    .assign (.node 0) "parent" (.object 0)] (Store.empty.addObject (.foreign "ForeignNode" (.bool true) []))).2

/-- **No condition can go.** The last child is not found by its index where its hint is a text, or a truth value
which then is its index, or is stale while the record about it has to show the child without end. And a way up
that ends at an object without a type is not searched in vain but fails. -/
theorem searches_disagree :
    (∀ s ∈ [withTextHint, withTrueHint, withEndlessRecord],
      s.children 0 = [.node 1, .node 2] ∧ (s.node 2).parent = some (.node 0) ∧
      ¬ ∃ v t, (Action.read (.node 2) "index").perform s = .ok v t ∧ t.find 0 v = .ok (.node 2)) ∧
    withForeignParent.parentOf (.node 0) = .ok (.object 0) ∧ withForeignParent.parentOf (.object 0) = .ok .null ∧
    withForeignParent.isInside 0 (.text "sky") = .error (.missingAttribute "ForeignNode" "type") := by
  refine ⟨fun s hs => ?_, rfl, rfl, ?_⟩
  · simp only [List.mem_cons, List.not_mem_nil, or_false] at hs
    rcases hs with rfl | rfl | rfl
    · refine ⟨rfl, rfl, ?_⟩
      rintro ⟨v, t, hrun, -⟩
      cases hrun
    · refine ⟨rfl, rfl, ?_⟩
      rintro ⟨v, t, hrun, hfind⟩
      cases hrun
      cases hfind
    · refine ⟨rfl, rfl, ?_⟩
      rintro ⟨v, t, hrun, -⟩
      cases hrun
  · rfl

end Store
end SyntaxTree
