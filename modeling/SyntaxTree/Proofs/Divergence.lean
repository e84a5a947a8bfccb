import SyntaxTree.Proofs.Climbing
import SyntaxTree.Proofs.Outlines

/-!
# `Proofs.Divergence` — which recursions have no end

Nothing keeps a node from being put below itself, so the lists may form any graph of nodes. Cloning and
outlining go down the lists, `next` goes up the parents, and each of the three ends unless its way goes
round (`GoesRound`). For the two that go down the reason is the tree that they unfold: a node that shows a
tree shows a smaller one at each node below it, which a node that leads back to itself cannot
(`Shows.not_goesRound`).
-/

namespace SyntaxTree
namespace Store

open Relation

variable {s s' : Store} {n m c : NodeId} {t : Subtree}

/-- Every child is a node that there is. -/
def Linked (s : Store) : Prop := ∀ p, ∀ v ∈ s.children p, ∃ c < s.nodes.size, v = .node c

theorem Linked.lt_size (h : s.Linked) (hn : n < s.nodes.size) (hm : ReflTransGen s.Holds n m) :
    m < s.nodes.size := by
  induction hm with
  | refl => exact hn
  | tail _ hc _ =>
      obtain ⟨c, hlt, hv⟩ := h _ _ hc
      cases hv
      exact hlt

/-! ## A tree and a way round -/

/-- What is below the top of a tree shows a part of it. -/
theorem Shows.part (h : s.Shows t) (hm : ReflTransGen s.Holds t.root m) :
    ∃ part, s.Shows part ∧ part.root = m ∧ ∀ p ∈ part.preorder, p ∈ t.preorder := by
  induction hm with
  | refl => exact ⟨t, h, rfl, fun p hp => hp⟩
  | tail _ hc ih =>
      obtain ⟨above, habove, rfl, hsub⟩ := ih
      cases habove with
      | @node n branches hchildren hbranches =>
          rw [Subtree.root, Holds, hchildren] at hc
          obtain ⟨part, hpart, hroot⟩ := List.mem_map.mp hc
          exact ⟨part, hbranches part hpart, Value.node.inj hroot,
            fun p hp => hsub p (Subtree.mem_preorder_of_branch hpart hp)⟩

/-- All that is below the top of a tree is in the tree. -/
theorem Shows.mem_of_down (h : s.Shows t) (hm : ReflTransGen s.Holds t.root m) : m ∈ t.preorder := by
  obtain ⟨part, -, rfl, hsub⟩ := h.part hm
  exact hsub _ (by simp [Subtree.preorder_eq])

/-- A child shows a smaller tree. -/
theorem Shows.smaller_child (h : s.Shows t) (hc : s.Holds t.root c) :
    ∃ part, s.Shows part ∧ part.root = c ∧ part.size < t.size := by
  cases h with
  | @node n branches hchildren hbranches =>
      rw [Subtree.root, Holds, hchildren] at hc
      obtain ⟨part, hpart, hroot⟩ := List.mem_map.mp hc
      refine ⟨part, hbranches part hpart, Value.node.inj hroot, ?_⟩
      rw [Subtree.size]
      exact Nat.lt_succ_of_le (Subtree.size_le_sizeAll hpart)

/-- What is below the top of a tree shows a smaller tree. -/
theorem Shows.smaller_below (h : s.Shows t) (hm : TransGen s.Holds t.root m) :
    ∃ part, s.Shows part ∧ part.root = m ∧ part.size < t.size := by
  induction hm with
  | single hc => exact h.smaller_child hc
  | tail _ hc ih =>
      obtain ⟨above, hshows, rfl, hlt⟩ := ih
      obtain ⟨part, hpart, hroot, hlt'⟩ := hshows.smaller_child hc
      exact ⟨part, hpart, hroot, Nat.lt_trans hlt' hlt⟩

/-- **A node that shows a tree does not go round.** The node where the way comes back would show two trees, one
    smaller than the other. -/
theorem Shows.not_goesRound (h : s.Shows t) : ¬ GoesRound s.Holds t.root := by
  rintro ⟨m, hdown, hround⟩
  obtain ⟨part, hpart, rfl, -⟩ := h.part hdown
  obtain ⟨again, hagain, hroot, hlt⟩ := hpart.smaller_below hround
  rw [hagain.unique hpart hroot] at hlt
  exact Nat.lt_irrefl _ hlt

/-- **What is below the top of a tree does not come back.** -/
theorem Shows.acyclic (h : s.Shows t) (hmade : ∀ m ∈ t.preorder, m < s.nodes.size) :
    s.Acyclic (ReflTransGen s.Holds t.root) where
  exist m hm := hmade m (h.mem_of_down hm)
  child p v hp hv := by
    obtain ⟨part, hpart, rfl, -⟩ := h.part hp
    rw [hpart.children] at hv
    obtain ⟨b, hb, rfl⟩ := List.mem_map.mp hv
    exact ⟨b.root, rfl, hp.tail (hpart.holds hb)⟩
  acyclic m hm hround := h.not_goesRound ⟨m, hm, hround⟩

/-- Where no way goes round, the nodes below are those of a tree. -/
theorem Linked.acyclic (hlinked : s.Linked) (h : ¬ GoesRound s.Holds n) :
    s.Acyclic fun m => m < s.nodes.size ∧ ReflTransGen s.Holds n m where
  exist m hm := hm.1
  child p v hp hv := by
    obtain ⟨c, hc, rfl⟩ := hlinked p v hv
    exact ⟨c, rfl, hc, hp.2.tail hv⟩
  acyclic m hm hround := h ⟨m, hm.2, hround⟩

/-! ## Unfolding -/

/-- Unfolding children fails only where it does for one of them. -/
theorem subtrees_cases (operation : String) {unfold : NodeId → Except Fault Subtree} {vs : List Value}
    (h : ∀ v ∈ vs, ∃ c, v = .node c ∧
      ((∃ t, unfold c = .ok t ∧ t.root = c ∧ s.Shows t) ∨ unfold c = .error .endless)) :
    (∃ ts, s.subtrees operation unfold vs = .ok ts ∧ vs = ts.map (fun t => .node t.root) ∧
      ∀ t ∈ ts, s.Shows t) ∨ s.subtrees operation unfold vs = .error .endless := by
  induction vs with
  | nil => exact Or.inl ⟨[], rfl, rfl, fun t ht => by cases ht⟩
  | cons v vs ih =>
      obtain ⟨c, rfl, ⟨t, ht, hroot, hshows⟩ | hendless⟩ := h v (List.mem_cons_self ..)
      · rcases ih fun w hw => h w (List.mem_cons_of_mem _ hw) with ⟨ts, hts, hvs, hall⟩ | hrest
        · refine Or.inl ⟨t :: ts, ?_, ?_, ?_⟩
          · rw [subtrees, actor_node]
            simp only [bind, Except.bind, ht, hts]
          · rw [List.map_cons, hroot, ← hvs]
          · rintro u (_ | ⟨_, hu⟩)
            · exact hshows
            · exact hall u hu
        · refine Or.inr ?_
          rw [subtrees, actor_node]
          simp only [bind, Except.bind, ht, hrest]
      · refine Or.inr ?_
        rw [subtrees, actor_node]
        simp only [bind, Except.bind, hendless]

/-- Nodes can be unfolded to a tree that they show, or the levels do not suffice. -/
theorem subtreeWithin_cases (hlinked : s.Linked) (operation : String) (fuel : Nat) (n : NodeId) :
    (∃ t, s.subtreeWithin operation fuel n = .ok t ∧ t.root = n ∧ s.Shows t) ∨
      s.subtreeWithin operation fuel n = .error .endless := by
  induction fuel generalizing n with
  | zero => exact Or.inr rfl
  | succ fuel ih =>
      have hbranches : ∀ v ∈ s.children n, ∃ c, v = .node c ∧
          ((∃ t, s.subtreeWithin operation fuel c = .ok t ∧ t.root = c ∧ s.Shows t) ∨
            s.subtreeWithin operation fuel c = .error .endless) := by
        intro v hv
        obtain ⟨c, -, rfl⟩ := hlinked n v hv
        exact ⟨c, rfl, ih c⟩
      rcases subtrees_cases operation hbranches with ⟨ts, hts, hchildren, hall⟩ | hendless
      · refine Or.inl ⟨.node n ts, ?_, rfl, .node hchildren hall⟩
        rw [subtreeWithin, hts]
        rfl
      · refine Or.inr ?_
        rw [subtreeWithin, hendless]
        rfl

/-- **A node can be unfolded unless its way down goes round**, and then that has no end. -/
theorem subtree_cases (hlinked : s.Linked) (hn : n < s.nodes.size) (operation : String) :
    (∃ t, s.subtree operation n = .ok t) ∧ ¬ GoesRound s.Holds n ∨
      s.subtree operation n = .error .endless ∧ GoesRound s.Holds n := by
  by_cases hround : GoesRound s.Holds n
  · refine Or.inr ⟨?_, hround⟩
    rcases subtreeWithin_cases hlinked operation (s.nodes.size + 1) n with ⟨t, -, rfl, hshows⟩ | hendless
    · exact absurd hround hshows.not_goesRound
    · exact hendless
  · obtain ⟨t, ht, -, -⟩ := subtree_of_acyclic (hlinked.acyclic hround) operation ⟨hn, .refl⟩
    exact Or.inl ⟨⟨t, ht⟩, hround⟩

/-! ## Outlining -/

/-- Both computations end with a value, or both need more levels. -/
def EndTogether {α β : Type} (x : Except Fault α) (y : Except Fault β) : Prop :=
  (∃ a b, x = .ok a ∧ y = .ok b) ∨ x = .error .endless ∧ y = .error .endless

/-- Outlining children goes as far as unfolding them. -/
theorem outlineAll_endTogether {unfold : NodeId → Except Fault Subtree}
    {outline : NodeId → Except Fault Outline} {vs : List Value}
    (h : ∀ v ∈ vs, ∃ c, v = .node c ∧ EndTogether (unfold c) (outline c)) :
    EndTogether (s.subtrees "to_dict" unfold vs) (s.outlineAll outline vs) := by
  induction vs with
  | nil => exact Or.inl ⟨[], [], rfl, rfl⟩
  | cons v vs ih =>
      obtain ⟨c, rfl, hfirst⟩ := h v (List.mem_cons_self ..)
      have hrest := ih fun w hw => h w (List.mem_cons_of_mem _ hw)
      rw [subtrees, outlineAll, actor_node]
      rcases hfirst with ⟨t, o, ht, ho⟩ | ⟨ht, ho⟩
      · rcases hrest with ⟨ts, os, hts, hos⟩ | ⟨hts, hos⟩
        · refine Or.inl ⟨t :: ts, o :: os, ?_, ?_⟩
          · simp only [bind, Except.bind, ht, hts]
          · simp only [bind, Except.bind, ho, hos]
        · refine Or.inr ⟨?_, ?_⟩
          · simp only [bind, Except.bind, ht, hts]
          · simp only [bind, Except.bind, ho, hos]
      · refine Or.inr ⟨?_, ?_⟩
        · simp only [bind, Except.bind, ht]
        · simp only [bind, Except.bind, ho]

/-- The extra attributes of what is below a node can be read as entries. -/
def Outlinable (s : Store) (n : NodeId) : Prop :=
  ∀ m, ReflTransGen s.Holds n m → ∃ es, s.entriesIn (s.node m).attr = .ok es

theorem Outlinable.fields (h : s.Outlinable n) : ∃ fields, s.outlineFields n = .ok fields := by
  obtain ⟨es, hes⟩ := h n .refl
  rw [outlineFields, hes]
  exact ⟨_, rfl⟩

/-- Outlining goes as far as unfolding. -/
theorem outlineWithin_endTogether (hlinked : s.Linked) (fuel : Nat) (h : s.Outlinable n) :
    EndTogether (s.subtreeWithin "to_dict" fuel n) (s.outlineWithin fuel n) := by
  induction fuel generalizing n with
  | zero => exact Or.inr ⟨rfl, rfl⟩
  | succ fuel ih =>
      obtain ⟨fields, hfields⟩ := h.fields
      rw [subtreeWithin, outlineWithin, bind_ok hfields]
      cases hnodes : (s.node n).nodes with
      | none =>
          have hchildren : s.children n = [] := by rw [children, hnodes]; rfl
          rw [hchildren]
          exact Or.inl ⟨_, _, rfl, rfl⟩
      | some vs =>
          have hchildren : s.children n = vs := by rw [children, hnodes]; rfl
          have hbranches : ∀ v ∈ vs, ∃ c, v = .node c ∧
              EndTogether (s.subtreeWithin "to_dict" fuel c) (s.outlineWithin fuel c) := by
            intro v hv
            rw [← hchildren] at hv
            obtain ⟨c, -, rfl⟩ := hlinked n v hv
            exact ⟨c, rfl, ih fun m hm => h m (.head hv hm)⟩
          rw [hchildren]
          rcases outlineAll_endTogether hbranches with ⟨ts, os, hts, hos⟩ | ⟨hts, hos⟩
          · rw [hts]
            dsimp only
            rw [bind_ok hos]
            exact Or.inl ⟨_, _, rfl, rfl⟩
          · rw [hts]
            dsimp only
            rw [hos]
            exact Or.inr ⟨rfl, rfl⟩

/-! ## Cloning -/

/-- The payload of a node can be copied, whatever it is. -/
theorem clonePayload_ends (n : NodeId) (s : Store) : ∃ c s', clonePayload n s = .ok c s' := by
  refine ⟨s.nodes.size, ?_⟩
  simp only [clonePayload, Run.read_bind, Run.bind_of_ok (blank_eq s _), Run.update_bind,
    Run.bind_of_ok (copy_eq _ _)]
  exact ⟨_, rfl⟩

mutual

/-- Copies of a tree can be made, whatever its payloads are. -/
theorem cloneTree_ends : (t : Subtree) → ∀ s, ∃ c s', cloneTree t s = .ok c s'
  | .node n branches, s => by
      obtain ⟨c, s₁, hpayload⟩ := clonePayload_ends n s
      obtain ⟨s₂, hinto⟩ := cloneInto_ends c branches s₁
      refine ⟨c, s₂, ?_⟩
      rw [cloneTree, Run.bind_of_ok hpayload, Run.bind_of_ok hinto]
      rfl

theorem cloneInto_ends (p : NodeId) : (ts : List Subtree) → ∀ s, ∃ s', cloneInto p ts s = .ok () s'
  | [], s => ⟨s, by rw [cloneInto]; rfl⟩
  | t :: ts, s => by
      obtain ⟨c, s₁, htree⟩ := cloneTree_ends t s
      obtain ⟨s₂, hrest⟩ := cloneInto_ends p ts (s₁.append p (.node c))
      refine ⟨s₂, ?_⟩
      rw [cloneInto, Run.bind_of_ok htree, Run.bind_of_ok (push_node s₁ p c), hrest]

end

/-! ## The three recursions -/

/-- The action answers with a value unless the way goes round, and then it has no end. -/
def EndsUnless (s : Store) (a : Action) (round : Prop) : Prop :=
  ((∃ v, Run.outcome (a.perform s) = .ok v) ↔ ¬ round) ∧
    (round → Run.outcome (a.perform s) = .error .endless)

theorem EndsUnless.of_cases {a : Action} {round : Prop}
    (h : (∃ v s', a.perform s = .ok v s') ∧ ¬ round ∨ (∃ s', a.perform s = .error .endless s') ∧ round) :
    s.EndsUnless a round := by
  rcases h with ⟨⟨v, s', hrun⟩, hround⟩ | ⟨⟨s', hrun⟩, hround⟩
  · have hanswer : Run.outcome (a.perform s) = .ok v := by rw [hrun]; rfl
    exact ⟨⟨fun _ => hround, fun _ => ⟨v, hanswer⟩⟩, fun h => absurd h hround⟩
  · have hendless : Run.outcome (a.perform s) = .error .endless := by rw [hrun]; rfl
    refine ⟨⟨fun ⟨v, hv⟩ => ?_, fun h => absurd hround h⟩, fun _ => hendless⟩
    rw [hendless] at hv
    cases hv

theorem clone_endsUnless (hlinked : s.Linked) (hn : n < s.nodes.size) :
    s.EndsUnless (.clone (.node n)) (GoesRound s.Holds n) := by
  refine .of_cases ?_
  have hperform : (Action.clone (.node n)).perform = Value.node <$> clone n := rfl
  rcases subtree_cases hlinked hn "clone" with ⟨⟨t, ht⟩, hround⟩ | ⟨hendless, hround⟩
  · obtain ⟨c, s', hclone⟩ := cloneTree_ends t s
    refine Or.inl ⟨⟨.node c, s', ?_⟩, hround⟩
    have hrun : clone n s = .ok c s' := by rw [clone, Run.bind_of_ok (Run.check_of_ok ht), hclone]
    rw [hperform]
    show EStateM.map Value.node (clone n) s = _
    rw [EStateM.map, hrun]
  · refine Or.inr ⟨⟨s, ?_⟩, hround⟩
    have hrun : clone n s = .error .endless s := by
      rw [clone, Run.bind_of_error (Run.check_of_error hendless)]
    rw [hperform]
    show EStateM.map Value.node (clone n) s = _
    rw [EStateM.map, hrun]

theorem toMap_endsUnless (hlinked : s.Linked) (hn : n < s.nodes.size) (h : s.Outlinable n) :
    s.EndsUnless (.toMap (.node n)) (GoesRound s.Holds n) := by
  refine .of_cases ?_
  show (∃ v s', toMap n s = .ok v s') ∧ _ ∨ (∃ s', toMap n s = .error .endless s') ∧ _
  have htogether : EndTogether (s.subtree "to_dict" n) (s.outline n) :=
    outlineWithin_endTogether hlinked _ h
  rcases subtree_cases hlinked hn "to_dict" with ⟨⟨t, ht⟩, hround⟩ | ⟨hendless, hround⟩
  · rcases htogether with ⟨_, o, -, ho⟩ | ⟨hendless, -⟩
    · obtain ⟨v, s', hwrite, -⟩ := writeOutline_ok o s
      refine Or.inl ⟨⟨v, s', ?_⟩, hround⟩
      rw [toMap, Run.bind_of_ok (Run.check_of_ok ho), hwrite]
    · rw [ht] at hendless
      cases hendless
  · rcases htogether with ⟨t, _, ht, -⟩ | ⟨-, ho⟩
    · rw [ht] at hendless
      cases hendless
    · refine Or.inr ⟨⟨s, ?_⟩, hround⟩
      rw [toMap, Run.bind_of_error (Run.check_of_error ho)]

/-- **The recursive operations have no end exactly where their ways go round.** In a store where all children
    and parents are nodes, a node can be cloned and outlined if and only if no node below it leads back to
    itself along the lists, and it has a next node or none if and only if the climb from it passes no
    node twice. Otherwise the answer is that there is no end. -/
theorem endless_iff_goesRound (hs : s.Regular) (hlinked : s.Linked)
    (hsentinel : ∀ n, (s.node n).cls.detached < 0) (hn : n < s.nodes.size) (hattr : s.Outlinable n) :
    s.EndsUnless (.toMap (.node n)) (GoesRound s.Holds n) ∧
      s.EndsUnless (.clone (.node n)) (GoesRound s.Holds n) ∧
        s.EndsUnless (.read (.node n) "next") (GoesRound s.Climbs n) := by
  refine ⟨toMap_endsUnless hlinked hn hattr, clone_endsUnless hlinked hn, .of_cases ?_⟩
  rw [perform_read, readNode_next]
  exact next_ends hs hsentinel n

/-- Two nodes hold each other; the first one holds another node as well, which holds a last one twice. -/
def withLoop : Store :=
  threeNodes .node [.create .node .empty, .push (.node 1) (.node 0), .push (.node 2) (.node 3),
    .push (.node 2) (.node 3)] .empty

theorem regular_withLoop : withLoop.Regular :=
  ⟨forall_node (show ∀ n < 4, (withLoop.node n).Proper by decide) (by decide), fun hread => by cases hread⟩

theorem linked_withLoop : withLoop.Linked :=
  forall_node (s := withLoop) (P := fun r => ∀ v ∈ r.nodes.getD [], ∃ c < 4, v = .node c)
    (show ∀ p < 4, _ from by decide) (by decide)

theorem outlinable_withLoop (hn : n < 4) : withLoop.Outlinable n := by
  intro m hm
  have hlt : m < 4 := linked_withLoop.lt_size hn hm
  match m with
  | 0 => exact ⟨_, rfl⟩
  | 1 => exact ⟨_, rfl⟩
  | 2 => exact ⟨_, rfl⟩
  | 3 => exact ⟨_, rfl⟩

/-- The climb from the last node passes all nodes and ends, since the first node in it is not the last
child of its parent; the way down from any node but the last two goes round. -/
theorem endless_withLoop :
    withLoop.Regular ∧ withLoop.Linked ∧ (∀ n, (withLoop.node n).cls.detached < 0) ∧
      (∀ n < 4, withLoop.Outlinable n) ∧
      (∀ n < 4, withLoop.EndsUnless (.toMap (.node n)) (GoesRound withLoop.Holds n) ∧
        withLoop.EndsUnless (.clone (.node n)) (GoesRound withLoop.Holds n) ∧
          withLoop.EndsUnless (.read (.node n) "next") (GoesRound withLoop.Climbs n)) ∧
      Run.outcome ((Action.toMap (.node 0)).perform withLoop) = .error .endless ∧
      Run.outcome ((Action.clone (.node 2)).perform withLoop) = .ok (.node 4) ∧
      Run.outcome ((Action.read (.node 3) "next").perform withLoop) = .ok (.node 2) := by
  have hsentinel : ∀ n, (withLoop.node n).cls.detached < 0 :=
    forall_node (s := withLoop) (P := fun r => r.cls.detached < 0)
      (show ∀ n < 4, _ from by decide) (by decide)
  exact ⟨regular_withLoop, linked_withLoop, hsentinel, fun n => outlinable_withLoop,
    fun n hn => endless_iff_goesRound regular_withLoop linked_withLoop hsentinel hn
      (outlinable_withLoop hn), rfl, rfl, rfl⟩

/-! ### What the ends depend on -/

/-- A node with a number in the place of its attributes. -/
def withNumber : Store :=
  (Action.performAll [.create .node .empty, .assign (.node 0) "attr" (.int 5)] .empty).2

/-- A node that holds itself, of a class that takes its position for "not there". -/
def withOddLoop : Store :=
  (Action.performAll [.create (.extended "Odd" 0 []) .empty, .push (.node 0) (.node 0)] .empty).2

/-- The last child has a text for a hint. -/
def withTextHint : Store := threeNodes .node [.assign (.node 2) "index" (.text "x")] .empty

theorem linked_of_three {s : Store} (hsize : s.nodes.size = 3) (h0 : s.children 0 = [.node 1, .node 2])
    (h1 : s.children 1 = []) (h2 : s.children 2 = []) : s.Linked := by
  refine forall_node_of_three (fun r => ∀ v ∈ r.nodes.getD [], ∃ c < s.nodes.size, v = .node c) hsize
    ⟨fun v hv => ?_, fun v hv => ?_, fun v hv => ?_⟩ fun v hv => by cases hv
  · rw [hsize]
    rcases List.mem_pair.mp (show v ∈ [Value.node 1, .node 2] from h0 ▸ hv) with rfl | rfl
    · exact ⟨1, by decide, rfl⟩
    · exact ⟨2, by decide, rfl⟩
  · have hnil : v ∈ s.children 1 := hv
    rw [h1] at hnil
    cases hnil
  · have hnil : v ∈ s.children 2 := hv
    rw [h2] at hnil
    cases hnil

/-- Where the index cannot be read there is no climb, and so the next node is promised. -/
theorem EndsUnless.of_unread (h : s.EndsUnless (.read (.node n) "next") (GoesRound s.Climbs n))
    (hunread : ∀ v, ¬ s.Reads n "index" v) : ∃ v, s.Reads n "next" v := by
  refine h.1.mpr fun hround => ?_
  obtain ⟨p, ⟨-, i, hi, -⟩, -⟩ := hround.next
  exact hunread _ hi

/-- **No condition can go.** There is an answer other than a value or no end where attributes cannot be read as
    entries, and where a hint is no integer. A climb goes round and ends all the same where the class of
    a node takes a position for "not there". And it has no end without going round where a debug record
    that is read has to show a node without end. -/
theorem not_endsUnless :
    (¬ ∀ (s : Store) (n : NodeId), s.Regular → s.Linked → (∀ n, (s.node n).cls.detached < 0) →
      n < s.nodes.size → s.EndsUnless (.toMap (.node n)) (GoesRound s.Holds n)) ∧
    (¬ ∀ (s : Store) (n : NodeId), s.Regular → s.Linked → n < s.nodes.size → s.Outlinable n →
      s.EndsUnless (.read (.node n) "next") (GoesRound s.Climbs n)) ∧
    (¬ ∀ (s : Store) (n : NodeId), (∀ n, (s.node n).Proper) → s.Linked →
      (∀ n, (s.node n).cls.detached < 0) → n < s.nodes.size →
        s.EndsUnless (.read (.node n) "next") (GoesRound s.Climbs n)) ∧
    ¬ ∀ (s : Store) (n : NodeId), (∀ n p, (s.node n).parent = some p → ∃ m, p = .node m) → s.Loggable →
      s.Linked → (∀ n, (s.node n).cls.detached < 0) → n < s.nodes.size →
        s.EndsUnless (.read (.node n) "next") (GoesRound s.Climbs n) := by
  refine ⟨fun hends => ?_, fun hends => ?_, fun hends => ?_, fun hends => ?_⟩
  · have hregular : withNumber.Regular :=
      ⟨forall_node (show ∀ n < 1, (withNumber.node n).Proper by decide) (by decide),
        fun hread => by cases hread⟩
    have hlinked : withNumber.Linked :=
      forall_node (s := withNumber) (P := fun r => ∀ v ∈ r.nodes.getD [], ∃ c < 1, v = .node c)
        (show ∀ p < 1, _ from by decide) (by decide)
    have hsentinel : ∀ n, (withNumber.node n).cls.detached < 0 :=
      forall_node (s := withNumber) (P := fun r => r.cls.detached < 0)
        (show ∀ n < 1, _ from by decide) (by decide)
    -- there are no children, and still no map
    obtain ⟨v, hv⟩ := (hends withNumber 0 hregular hlinked hsentinel (by decide)).1.mpr fun hround => by
      obtain ⟨c, hc, -⟩ := hround.next
      cases hc
    cases hv
  · have hregular : withOddLoop.Regular :=
      ⟨forall_node (show ∀ n < 1, (withOddLoop.node n).Proper by decide) (by decide),
        fun hread => by cases hread⟩
    have hlinked : withOddLoop.Linked :=
      forall_node (s := withOddLoop) (P := fun r => ∀ v ∈ r.nodes.getD [], ∃ c < 1, v = .node c)
        (show ∀ p < 1, _ from by decide) (by decide)
    have houtlinable : withOddLoop.Outlinable 0 := by
      intro m hm
      have hlt : m < 1 := hlinked.lt_size (show 0 < 1 by decide) hm
      match m with
      | 0 => exact ⟨_, rfl⟩
    have hclimb : withOddLoop.Climbs 0 0 := ⟨rfl, 0, rfl, rfl⟩
    have hendless := (hends withOddLoop 0 hregular hlinked (by decide) houtlinable).2
      ⟨0, .refl, .single hclimb⟩
    cases hendless
  · have hlinked : withEndlessRecord.Linked := linked_of_three rfl rfl rfl rfl
    have hunread : ∀ v, ¬ withEndlessRecord.Reads 2 "index" v := fun v hv => by cases hv
    obtain ⟨v, hv⟩ := (hends withEndlessRecord 2
      (forall_node_of_three NodeRecord.Proper rfl (by decide) (by decide)) hlinked
      (forall_node_of_three (·.cls.detached < 0) rfl (by decide) (by decide)) (by decide)).of_unread hunread
    cases hv
  · have hparent : withTextHint.OneParent := ⟨rfl, rfl, rfl⟩
    have hunread : ∀ v, ¬ withTextHint.Reads 2 "index" v := fun v hv => by cases hv
    obtain ⟨v, hv⟩ := (hends withTextHint 2 (fun n p hp => ⟨0, hparent.parent rfl n p hp⟩)
      (fun hread => by cases hread) (linked_of_three rfl rfl rfl rfl)
      (forall_node_of_three (·.cls.detached < 0) rfl (by decide) (by decide)) (by decide)).of_unread hunread
    cases hv

end Store
end SyntaxTree
