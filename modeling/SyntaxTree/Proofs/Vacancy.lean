import SyntaxTree.Node.Call
import SyntaxTree.Proofs.Pictures

/-!
# `Proofs.Vacancy` — emptiness is decided in document order

The search for a value goes down a tree by recursion, and is given up at the first node that fails the test or
carries a value: on every level above, the children that are left are not looked at. So it is the same as going
through the nodes in document order, one after the other, up to and including that first node. Joining lists is
the whole argument: a search that has found nothing in one list goes on in the next (`verdict_append`,
`askEach_append`), and the preorder of a tree is its top followed by the preorders of its branches.

A test that only looks is a function on nodes, and the nodes that were tested are part of the answer. A test that
is called may do other things besides, or fail; as long as it leaves the lists of children alone, the search is the
run that calls it on node after node (`emptyByWithin_eq`), and that run can only end in one of three ways
(`SearchEnds`).
-/

namespace SyntaxTree
namespace Store

open Relation

variable {s s' s'' : Store} {t : Subtree} {ts : List Subtree} {n : NodeId} {ns ns' : List NodeId}

/-- A node carries no value if that is null or the empty text. -/
theorem carriesValue_eq_false_iff :
    s.carriesValue n = false ↔ (s.node n).value = .null ∨ (s.node n).value = .text "" := by
  simp only [carriesValue, Bool.and_eq_false_iff, decide_eq_false_iff_not, ne_eq, not_not]

/-! ## A test that only looks -/

/-- What is found by going through nodes up to and including the first one that does not pass. -/
def verdict (passes : NodeId → Bool) (ns : List NodeId) : Emptiness :=
  ⟨ns.all passes, ns.takeWhile passes ++ (ns.dropWhile passes).take 1⟩

section Verdict

variable {passes : NodeId → Bool}

theorem verdict_cons_of_pos (hn : passes n = true) (ns : List NodeId) :
    verdict passes (n :: ns) = ⟨(verdict passes ns).empty, n :: (verdict passes ns).tested⟩ := by
  simp [verdict, hn]

theorem verdict_cons_of_neg (hn : passes n = false) (ns : List NodeId) :
    verdict passes (n :: ns) = ⟨false, [n]⟩ := by
  simp [verdict, hn]

/-- **A search goes on in the next list exactly if nothing was found in the first.** -/
theorem verdict_append (ns ns' : List NodeId) : verdict passes (ns ++ ns') =
    if (verdict passes ns).empty then
      ⟨(verdict passes ns').empty, (verdict passes ns).tested ++ (verdict passes ns').tested⟩
    else verdict passes ns := by
  induction ns with
  | nil => rfl
  | cons n ns ih =>
      cases hn : passes n with
      | true =>
          rw [List.cons_append, verdict_cons_of_pos hn, verdict_cons_of_pos hn, ih]
          by_cases hall : (verdict passes ns).empty
          · simp only [if_pos hall, List.cons_append]
          · simp only [if_neg hall]
      | false =>
          rw [List.cons_append, verdict_cons_of_neg hn, verdict_cons_of_neg hn]
          rfl

end Verdict

/-- A node passes a test without a value. -/
def Clears (s : Store) (test : NodeId → Bool) (n : NodeId) : Bool := test n && !s.carriesValue n

theorem clears_iff {test : NodeId → Bool} :
    s.Clears test n = true ↔ test n = true ∧ ((s.node n).value = .null ∨ (s.node n).value = .text "") := by
  rw [Clears, Bool.and_eq_true, Bool.not_eq_true', carriesValue_eq_false_iff]

theorem allEmpty_eq {passes : NodeId → Bool} {search : NodeId → Except Fault Emptiness}
    (h : ∀ t ∈ ts, search t.root = .ok (verdict passes t.preorder)) :
    s.allEmpty search (ts.map fun t => .node t.root) = .ok (verdict passes (Subtree.preorderAll ts)) := by
  induction ts with
  | nil => rfl
  | cons t ts ih =>
      have hfirst := h t (List.mem_cons_self ..)
      have hrest := ih fun u hu => h u (List.mem_cons_of_mem _ hu)
      rw [List.map_cons, allEmpty, actor_node, Subtree.preorderAll, verdict_append]
      simp only [bind, Except.bind, hfirst, hrest]
      split
      · rfl
      · rfl

/-- **The search of a tree is the search of its nodes in document order**, at any depth that is at least its own. -/
theorem emptinessWithin_eq (h : s.Shows t) (test : NodeId → Bool) {fuel : Nat} (hfuel : t.depth ≤ fuel) :
    s.emptinessWithin (fun m => .ok (test m)) fuel t.root = .ok (verdict (s.Clears test) t.preorder) := by
  induction h generalizing fuel with
  | @node n branches hchildren _ ih =>
      rw [Subtree.depth] at hfuel
      obtain ⟨fuel, rfl⟩ : ∃ f, fuel = f + 1 := ⟨fuel - 1, by omega⟩
      have hbelow : s.allEmpty (s.emptinessWithin (fun m => .ok (test m)) fuel) (s.children n) =
          .ok (verdict (s.Clears test) (Subtree.preorderAll branches)) := by
        rw [hchildren]
        apply allEmpty_eq
        intro b hb
        have hle := Subtree.depth_le_depthAll hb
        exact ih b hb (by omega)
      have hclears : (!test n || s.carriesValue n) = !s.Clears test n := by
        rw [Clears, Bool.not_and, Bool.not_not]
      rw [Subtree.root, emptinessWithin, Subtree.preorder]
      simp only [bind, Except.bind, hclears, hbelow]
      cases hn : s.Clears test n with
      | true => rw [verdict_cons_of_pos hn]; rfl
      | false => rw [verdict_cons_of_neg hn]; rfl

/-! ## A test that is called -/

/-- The lists of children of some nodes are what they were. -/
def ListsKept (s : Store) (ns : List NodeId) (s' : Store) : Prop := ∀ n ∈ ns, s'.children n = s.children n

/-- Calls a test on nodes one after the other, up to the first one that fails it or carries a value. -/
def askEach (test : NodeId → Run Bool) : List NodeId → Run Bool
  | [] => return true
  | n :: ns => do
    if !(← test n) then return false
    let s ← get
    if s.carriesValue n then return false
    askEach test ns

/-- The calls on nodes that all pass lead from one store to another. -/
inductive Passed (test : NodeId → Run Bool) : List NodeId → Store → Store → Prop
  | nil {s : Store} : Passed test [] s s
  | cons {n : NodeId} {ns : List NodeId} {s s' s'' : Store} : test n s = .ok true s' →
      s'.carriesValue n = false → Passed test ns s' s'' → Passed test (n :: ns) s s''

/-- The calls of a test on nodes in order come to an end: because all of them have passed, because of a node that
fails the test or carries a value, or because the test itself fails. In the last two cases no other node was tested
than those before and that one. -/
inductive SearchEnds (test : NodeId → Run Bool) (ns : List NodeId) (s : Store) :
    EStateM.Result Fault Store Bool → Prop
  | empty {s' : Store} : Passed test ns s s' → SearchEnds test ns s (.ok true s')
  | found {before after : List NodeId} {n : NodeId} {s₁ s' : Store} {b : Bool} : ns = before ++ n :: after →
      Passed test before s s₁ → test n s₁ = .ok b s' → (b = true → s'.carriesValue n = true) →
      SearchEnds test ns s (.ok false s')
  | failed {before after : List NodeId} {n : NodeId} {s₁ s' : Store} {e : Fault} : ns = before ++ n :: after →
      Passed test before s s₁ → test n s₁ = .error e s' → SearchEnds test ns s (.error e s')

section Called

variable {test : NodeId → Run Bool}

theorem askEach_cons (n : NodeId) (ns : List NodeId) : askEach test (n :: ns) = (do
    if !(← test n) then return false
    let s ← get
    if s.carriesValue n then return false
    askEach test ns) := rfl

theorem askEach_of_passed (h : test n s = .ok true s') (hn : s'.carriesValue n = false) (ns : List NodeId) :
    askEach test (n :: ns) s = askEach test ns s' := by
  rw [askEach_cons, Run.bind_of_ok h]
  simp [hn]

theorem askEach_of_found {b : Bool} (h : test n s = .ok b s') (hn : b = true → s'.carriesValue n = true)
    (ns : List NodeId) : askEach test (n :: ns) s = .ok false s' := by
  rw [askEach_cons, Run.bind_of_ok h]
  cases b with
  | true => simp [hn rfl]
  | false => rfl

theorem askEach_of_failed {e : Fault} (h : test n s = .error e s') (ns : List NodeId) :
    askEach test (n :: ns) s = .error e s' := by
  rw [askEach_cons, Run.bind_of_error h]

/-- One call lets the next node be asked, or ends the search. -/
theorem call_cases (test : NodeId → Run Bool) (n : NodeId) (s : Store) :
    (∃ s', test n s = .ok true s' ∧ s'.carriesValue n = false) ∨
      (∃ b s', test n s = .ok b s' ∧ (b = true → s'.carriesValue n = true)) ∨ ∃ e s', test n s = .error e s' := by
  cases hrun : test n s with
  | error e s' => exact Or.inr (Or.inr ⟨e, s', rfl⟩)
  | ok b s' =>
      by_cases hpassed : b = true ∧ s'.carriesValue n = false
      · obtain ⟨rfl, hn⟩ := hpassed
        exact Or.inl ⟨s', rfl, hn⟩
      · refine Or.inr (Or.inl ⟨b, s', rfl, fun hb => ?_⟩)
        rw [← Bool.not_eq_false]
        intro hn
        exact hpassed ⟨hb, hn⟩

theorem Passed.before {r : EStateM.Result Fault Store Bool} (h : test n s = .ok true s')
    (hn : s'.carriesValue n = false) (hrest : SearchEnds test ns s' r) : SearchEnds test (n :: ns) s r := by
  cases hrest with
  | empty hpassed => exact .empty (.cons h hn hpassed)
  | found hns hpassed hlast hfound =>
      rw [hns]
      exact .found rfl (.cons h hn hpassed) hlast hfound
  | failed hns hpassed hlast =>
      rw [hns]
      exact .failed rfl (.cons h hn hpassed) hlast

/-- **Calling a test on nodes in order ends in one of the three ways.** -/
theorem askEach_ends (test : NodeId → Run Bool) (ns : List NodeId) (s : Store) :
    SearchEnds test ns s (askEach test ns s) := by
  induction ns generalizing s with
  | nil => exact .empty .nil
  | cons n ns ih =>
      rcases call_cases test n s with ⟨s', hrun, hn⟩ | ⟨b, s', hrun, hn⟩ | ⟨e, s', hrun⟩
      · rw [askEach_of_passed hrun hn]
        exact Passed.before hrun hn (ih s')
      · rw [askEach_of_found hrun hn]
        have hsplit : n :: ns = [] ++ n :: ns := rfl
        exact .found hsplit .nil hrun hn
      · rw [askEach_of_failed hrun]
        have hsplit : n :: ns = [] ++ n :: ns := rfl
        exact .failed hsplit .nil hrun

theorem askEach_append (ns ns' : List NodeId) : askEach test (ns ++ ns') =
    (do if ← askEach test ns then askEach test ns' else return false) := by
  funext s
  induction ns generalizing s with
  | nil => rfl
  | cons n ns ih =>
      rcases call_cases test n s with ⟨s', hrun, hn⟩ | ⟨b, s', hrun, hn⟩ | ⟨e, s', hrun⟩
      · rw [List.cons_append, askEach_of_passed hrun hn, ih]
        exact Run.bind_congr (askEach_of_passed hrun hn ns).symm
      · rw [List.cons_append, askEach_of_found hrun hn, Run.bind_of_ok (askEach_of_found hrun hn ns)]
        rfl
      · rw [List.cons_append, askEach_of_failed hrun, Run.bind_of_error (askEach_of_failed hrun ns)]

theorem askEach_preserves {inv : Store → Prop} (h : ∀ n ∈ ns, Run.Preserves inv (test n)) :
    Run.Preserves inv (askEach test ns) := by
  induction ns with
  | nil => exact .pure true
  | cons n ns ih =>
      rw [askEach_cons]
      apply (h n (List.mem_cons_self ..)).bind
      intro b
      apply Run.Preserves.ite
      · exact fun _ => .pure false
      · intro _
        apply Run.Preserves.get.bind
        intro s
        exact .ite (fun _ => .pure false) fun _ => ih fun m hm => h m (List.mem_cons_of_mem _ hm)

theorem allEmptyBy_eq (inv : Store → Prop) {search : NodeId → Run Bool}
    (hsearch : ∀ t ∈ ts, ∀ s', inv s' → search t.root s' = askEach test t.preorder s')
    (htest : ∀ m ∈ Subtree.preorderAll ts, Run.Preserves inv (test m)) (hs' : inv s') :
    allEmptyBy search (ts.map fun t => .node t.root) s' = askEach test (Subtree.preorderAll ts) s' := by
  induction ts generalizing s' with
  | nil => rfl
  | cons t ts ih =>
      have hfirst := hsearch t (List.mem_cons_self ..) s' hs'
      have hpreserved : Run.Preserves inv (askEach test t.preorder) := by
        apply askEach_preserves
        intro m hm
        exact htest m (by simp [Subtree.preorderAll, hm])
      have hkept := hpreserved s' hs'
      rw [List.map_cons, allEmptyBy, Subtree.preorderAll, askEach_append]
      rw [Run.bind_of_ok (Run.check_of_ok (actor_node ..)), Run.bind_congr hfirst]
      cases hrun : askEach test t.preorder s' with
      | error e s'' => rw [Run.bind_of_error hrun, Run.bind_of_error hrun]
      | ok b s'' =>
          rw [Run.ends_of_ok hrun] at hkept
          rw [Run.bind_of_ok hrun, Run.bind_of_ok hrun]
          cases b with
          | false => rfl
          | true =>
              apply ih (fun u hu => hsearch u (List.mem_cons_of_mem _ hu)) _ hkept
              intro m hm
              exact htest m (by simp [Subtree.preorderAll, hm])

/-- **The search of a tree calls the test on its nodes in document order**, wherever the calls keep the lists of
children that the tree is made of. -/
theorem emptyByWithin_eq {inv : Store → Prop} (h : s.Shows t) (hinv : ∀ s', inv s' → s.ListsKept t.preorder s')
    (htest : ∀ m ∈ t.preorder, Run.Preserves inv (test m)) {fuel : Nat} (hfuel : t.depth ≤ fuel)
    (hs' : inv s') : emptyByWithin test fuel t.root s' = askEach test t.preorder s' := by
  induction h generalizing fuel s' with
  | @node n branches hchildren _ ih =>
      rw [Subtree.depth] at hfuel
      obtain ⟨fuel, rfl⟩ : ∃ f, fuel = f + 1 := ⟨fuel - 1, by omega⟩
      have hkept := htest n (Subtree.root_mem_preorder _) s' hs'
      rw [Subtree.root, emptyByWithin, Subtree.preorder]
      rcases call_cases test n s' with ⟨s'', hrun, hn⟩ | ⟨b, s'', hrun, hn⟩ | ⟨e, s'', hrun⟩
      · rw [Run.ends_of_ok hrun] at hkept
        rw [askEach_of_passed hrun hn, Run.bind_of_ok hrun]
        have hlist : s''.children n = branches.map fun b => .node b.root := by
          rw [hinv s'' hkept n (Subtree.root_mem_preorder _), hchildren]
        simp only [Bool.not_true, Bool.false_eq_true, if_false, Run.get_bind, hn, hlist]
        apply allEmptyBy_eq inv _ _ hkept
        · intro b hb s₁ hs₁
          have hle := Subtree.depth_le_depthAll hb
          apply ih b hb _ _ (by omega) hs₁
          · exact fun s₂ hs₂ m hm => hinv s₂ hs₂ m (Subtree.mem_preorder_of_branch hb hm)
          · exact fun m hm => htest m (Subtree.mem_preorder_of_branch hb hm)
        · intro m hm
          exact htest m (by simp [Subtree.preorder, hm])
      · rw [askEach_of_found hrun hn, Run.bind_of_ok hrun]
        cases b with
        | true => simp [hn rfl]
        | false => rfl
      · rw [askEach_of_failed hrun, Run.bind_of_error hrun]

end Called

/-! ## Whether a node is empty -/

/-- **A node is empty exactly if every node of its tree passes the test and has null or the empty text for its value.**
The nodes of the tree are tested in document order, up to and including the first one that does not pass or carries a
value. A test that is called on them may do anything else but change the lists of children. -/
theorem isEmpty_in_document_order (h : s.Acyclic (ReflTransGen s.Holds n)) : ∃ t, t.root = n ∧ s.Shows t ∧
    (∀ test : NodeId → Bool, ∃ found, s.emptiness (fun m => .ok (test m)) n = .ok found ∧
      (found.empty = true ↔
        ∀ m ∈ t.preorder, test m = true ∧ ((s.node m).value = .null ∨ (s.node m).value = .text "")) ∧
      found.tested = t.preorder.takeWhile (s.Clears test) ++ (t.preorder.dropWhile (s.Clears test)).take 1) ∧
    ∀ ask : Asking,
      (∀ (predicate : Value) (inv : Store → Prop), predicate ≠ .null → inv s →
        (∀ s', inv s' → s.ListsKept t.preorder s') →
        (∀ m ∈ t.preorder, Run.Preserves inv (ask predicate m)) →
        SearchEnds (ask predicate) t.preorder s (isEmptyBy ask n predicate s)) ∧
      ∃ b, isEmptyBy ask n .null s = .ok b s ∧
        (b = true ↔ ∀ m ∈ t.preorder, (s.node m).value = .null ∨ (s.node m).value = .text "") := by
  obtain ⟨t, -, rfl, hshows⟩ := subtree_of_acyclic h "is_empty" .refl
  have hdepth : t.depth ≤ s.nodes.size + 1 := (hshows.depth_le h .refl).trans (Nat.le_succ _)
  have hempty (test : NodeId → Bool) : s.emptiness (fun m => .ok (test m)) t.root =
      .ok (verdict (s.Clears test) t.preorder) := emptinessWithin_eq hshows test hdepth
  refine ⟨t, rfl, hshows, fun test => ⟨_, hempty test, ?_, rfl⟩, fun ask => ⟨?_, ?_⟩⟩
  · rw [verdict, List.all_eq_true]
    apply forall₂_congr
    intro m _
    rw [clears_iff]
  · intro predicate inv hpredicate hs hinv htest
    have hrun : isEmptyBy ask t.root predicate s = askEach (ask predicate) t.preorder s := by
      rw [isEmptyBy, Run.get_bind, if_neg hpredicate]
      exact emptyByWithin_eq hshows hinv htest hdepth hs
    rw [hrun]
    exact askEach_ends ..
  · refine ⟨t.preorder.all (s.Clears fun _ => true), ?_, ?_⟩
    · have hread : s.isEmpty t.root = .ok (t.preorder.all (s.Clears fun _ => true)) := by
        rw [isEmpty, hempty]
        rfl
      rw [isEmptyBy, Run.get_bind, if_pos rfl]
      exact Run.check_of_ok hread
    · rw [List.all_eq_true]
      apply forall₂_congr
      intro m _
      rw [clears_iff, eq_self, true_and]

/-- A node that holds one child on both sides of another, and a matcher that passes all of them but the other. -/
def withOddLeaf : Store :=
  { Store.empty with
    nodes := #[⟨.node, .text "root", .null, some [.node 1, .node 2, .node 1], .object 0, none, .int (-1)⟩,
      ⟨.node, .text "leaf", .text "", none, .object 1, some (.node 0), .int 2⟩,
      ⟨.node, .text "odd", .null, none, .object 2, some (.node 0), .int 1⟩]
    objects := #[.map [], .map [], .map [], .matcher .string (.node 0), .matcher .string (.node 1),
      .collection .list [.object 3, .object 4], .matcher .anyOf (.object 5)] }

theorem acyclic_withOddLeaf : withOddLeaf.Acyclic (ReflTransGen withOddLeaf.Holds 0) :=
  acyclic_of_ordered (by decide) (by decide)

/-- No node carries a value, and the search for one that the matcher refuses does not come to the last leaf. -/
theorem isEmpty_withOddLeaf : ∃ found, withOddLeaf.emptiness (fun m => .ok (m != 2)) 0 = .ok found ∧
    found.tested = [0, 1, 2] ∧
    SearchEnds (askByCall (.object 6)) [0, 1, 2, 1] withOddLeaf (isEmptyBy askByCall 0 (.object 6) withOddLeaf) ∧
    isEmptyBy askByCall 0 (.object 6) withOddLeaf = .ok false withOddLeaf ∧
    isEmptyBy askByCall 0 .null withOddLeaf = .ok true withOddLeaf := by
  obtain ⟨t, hroot, hshows, htest, hask⟩ := isEmpty_in_document_order acyclic_withOddLeaf
  have hleaf {c : NodeId} (hc : withOddLeaf.children c = []) : withOddLeaf.Shows (.node c []) :=
    .node hc fun b hb => by cases hb
  have hroot' : withOddLeaf.Shows (.node 0 [.node 1 [], .node 2 [], .node 1 []]) := by
    refine .node rfl fun b hb => ?_
    have hb : b = .node 1 [] ∨ b = .node 2 [] ∨ b = .node 1 [] := by simpa using hb
    rcases hb with rfl | rfl | rfl <;> exact hleaf rfl
  cases hshows.unique hroot' hroot
  obtain ⟨found, hfound, -, htested⟩ := htest (fun m => m != 2)
  obtain ⟨hcalled, -⟩ := hask askByCall
  refine ⟨found, hfound, htested.trans (by decide), ?_, by rfl, by rfl⟩
  apply hcalled (.object 6) (· = withOddLeaf) (by decide) rfl
  · intro s' hs' m hm
    rw [hs']
  · intro m hm s' hs'
    have hm : m = 0 ∨ m = 1 ∨ m = 2 ∨ m = 1 := by simpa [Subtree.preorder, Subtree.preorderAll] using hm
    rw [hs']
    rcases hm with rfl | rfl | rfl | rfl <;> rfl

end Store
end SyntaxTree
