import SyntaxTree.Proofs.History
import SyntaxTree.Proofs.Removal

/-!
# `Proofs.Absence` — an absent list of children and an empty one

A node that never had a child has no list of children; one that lost its last child has an empty list. It
makes no difference to what is asked about nodes, nor to what is done to them, which of the two it is.
`Matched` stores may differ in that, and in hints: without a list an index is read without renewing the
hint, with an empty list the hint is renewed.

The one operation that looks at the list itself is removing, since it deletes in it. But where the lists
are different they are empty; a child then reports the value of its class for "not there", and if that is
the value of the class of the parent as well nothing is deleted (`remove_childless`).
-/

namespace SyntaxTree

/-- The record with an empty list of children, if there was none. -/
def NodeRecord.withList (r : NodeRecord) : NodeRecord :=
  match r.nodes with
  | none => { r with nodes := some [] }
  | some _ => r

namespace Store

variable {s t : Store} {n c : NodeId}

/-- The store in which the chosen nodes have an empty list of children if they had none. -/
def withLists (s : Store) (chosen : NodeId → Bool) : Store :=
  { s with nodes := s.nodes.mapIdx fun n r => if chosen n then r.withList else r }

/-- All nodes have the same value for "not there". -/
def OneSentinel (s : Store) : Prop :=
  ∀ n < s.nodes.size, ∀ m < s.nodes.size, (s.node n).cls.detached = (s.node m).cls.detached

/-! ## Stores that match -/

/-- The stores differ in hints, in the debug log, and in which of the nodes without children have a list. -/
structure Matched (s t : Store) : Prop where
  resembles : s.Resembles t
  left : ∀ n, (s.node n).Proper
  right : ∀ n, (t.node n).Proper
  sentinel : s.OneSentinel

theorem OneSentinel.of_classes (hs : s.OneSentinel) (hsize : t.nodes.size = s.nodes.size)
    (hcls : ∀ n, (t.node n).cls = (s.node n).cls) : t.OneSentinel := by
  intro n hn m hm
  rw [hcls n, hcls m]
  exact hs n (hsize ▸ hn) m (hsize ▸ hm)

theorem resembles_withList (r : NodeRecord) : r.Resembles r.withList := by
  unfold NodeRecord.withList
  split
  · next hnone => exact ⟨rfl, rfl, rfl, rfl, rfl, by rw [hnone]; rfl⟩
  · exact .refl r

theorem proper_withList {r : NodeRecord} (hr : r.Proper) : r.withList.Proper := by
  unfold NodeRecord.withList
  split
  · exact ⟨hr.hint_int, hr.parent_node⟩
  · exact hr

theorem node_withLists (s : Store) (chosen : NodeId → Bool) (n : NodeId) :
    (s.withLists chosen).node n = s.node n ∨ (s.withLists chosen).node n = (s.node n).withList := by
  by_cases hn : n < s.nodes.size
  · by_cases hchosen : chosen n
    · right
      simp [withLists, node, Array.getD_eq_getD_getElem?, hn, hchosen]
    · left
      simp [withLists, node, Array.getD_eq_getD_getElem?, hn, hchosen]
  · have hout : s.nodes.size ≤ n := Nat.le_of_not_lt hn
    left
    rw [node_of_size_le s hout, node_of_size_le _ (by rw [withLists, Array.size_mapIdx]; exact hout)]

theorem resembles_withLists (s : Store) (chosen : NodeId → Bool) : s.Resembles (s.withLists chosen) where
  size := by rw [withLists, Array.size_mapIdx]
  objects := rfl
  logIsRead := rfl
  node n := by
    rcases node_withLists s chosen n with hsame | hlist
    · rw [hsame]
      exact .refl _
    · rw [hlist]
      exact resembles_withList _

theorem proper_withLists (hs : ∀ n, (s.node n).Proper) (chosen : NodeId → Bool) (n : NodeId) :
    ((s.withLists chosen).node n).Proper := by
  rcases node_withLists s chosen n with hsame | hlist
  · rw [hsame]
    exact hs n
  · rw [hlist]
    exact proper_withList (hs n)

theorem matched_withLists (hs : ∀ n, (s.node n).Proper) (hsentinel : s.OneSentinel)
    (chosen : NodeId → Bool) : Matched s (s.withLists chosen) :=
  ⟨resembles_withLists s chosen, hs, proper_withLists hs chosen, hsentinel⟩

/-! ## Changes -/

namespace Matched

theorem reread {s' t' : Store} (h : Matched s t) (hs : s.Reread s') (ht : t.Reread t') : Matched s' t' where
  resembles := hs.resembles.trans (h.resembles.trans ht.resembles.symm)
  left n := hs.proper n (h.left n)
  right n := ht.proper n (h.right n)
  sentinel := h.sentinel.of_classes hs.resembles.size hs.resembles.cls

/-- A change of a node that leaves its class alone. -/
theorem updateNode (h : Matched s t) (n : NodeId) {f : NodeRecord → NodeRecord}
    (hf : ∀ r r', r.Resembles r' → (f r).Resembles (f r')) (hproper : ∀ r, r.Proper → (f r).Proper)
    (hcls : ∀ r, (f r).cls = r.cls) : Matched (s.updateNode n f) (t.updateNode n f) where
  resembles := h.resembles.updateNode n hf
  left := proper_updateNode h.left n hproper
  right := proper_updateNode h.right n hproper
  sentinel := h.sentinel.of_classes (size_updateNode s n f) fun m => field_updateNode NodeRecord.cls s n hcls m

theorem setParent (h : Matched s t) (c p : NodeId) :
    Matched (s.setParent c (some (.node p))) (t.setParent c (some (.node p))) :=
  h.updateNode c (fun _ _ hr => ⟨hr.cls, hr.type, hr.value, hr.attr, rfl, hr.children⟩)
    (fun _ hr => ⟨hr.hint_int, fun _ hq => ⟨p, (Option.some.inj hq).symm⟩⟩) fun _ => rfl

theorem setNodes (h : Matched s t) (n : NodeId) (l : List Value) :
    Matched (s.setNodes n (some l)) (t.setNodes n (some l)) :=
  h.updateNode n (fun _ _ hr => ⟨hr.cls, hr.type, hr.value, hr.attr, hr.parent, rfl⟩)
    (fun _ hr => ⟨hr.hint_int, hr.parent_node⟩) fun _ => rfl

theorem addObject (h : Matched s t) (o : Object) : Matched (s.addObject o) (t.addObject o) :=
  ⟨h.resembles.addObject o, h.left, h.right, h.sentinel⟩

theorem collect (h : Matched s t) (inUse : List Value) : Matched (s.collect inUse) (t.collect inUse) where
  resembles := h.resembles.collect h.left h.right inUse
  left n := by
    rw [node_collect]
    exact proper_cutParent _ (h.left n)
  right n := by
    rw [node_collect]
    exact proper_cutParent _ (h.right n)
  sentinel := h.sentinel.of_classes (size_collect s inUse) fun n => by
    rw [node_collect]
    rcases cutParent_parent_or (s.reachable inUse) (s.node n) with hsame | hcut
    · rw [hsame]
    · rw [hcut]

theorem congruence : Congruence Matched where
  resembles h := h.resembles
  left h := h.left
  right h := h.right
  reread h := h.reread
  setParent h := h.setParent
  setNodes h := h.setNodes

end Matched

/-! ## Removing -/

/-- Matched stores in which a node has the same list, or none in both. -/
theorem congruence_sameList (n : NodeId) :
    Congruence fun s t => Matched s t ∧ (s.node n).nodes = (t.node n).nodes where
  resembles h := h.1.resembles
  left h := h.1.left
  right h := h.1.right
  reread h hs ht := ⟨h.1.reread hs ht, by rw [hs.nodes_eq, ht.nodes_eq, h.2]⟩
  setParent h c p := by
    refine ⟨h.1.setParent c p, ?_⟩
    rw [setParent, setParent, node_updateNode, node_updateNode, h.1.resembles.size]
    split
    · exact h.2
    · exact h.2
  setNodes h m l := by
    refine ⟨h.1.setNodes m l, ?_⟩
    rw [setNodes, setNodes, node_updateNode, node_updateNode, h.1.resembles.size]
    split
    · rfl
    · exact h.2

/-- **Nothing is removed from a node without children**, whether it has an empty list or none. -/
theorem remove_childless (hs : s.Regular) (hnil : s.children n = [])
    (hsame : (s.node c).parent = some (.node n) → (s.node c).cls.detached = (s.node n).cls.detached) :
    ∃ s', remove n (.node c) s = Run.ended (.ok .null) s' ∧ s.Reread s' := by
  by_cases hparent : (s.node c).parent = some (.node n)
  · have hmem : Value.node c ∉ s.children n := by
      rw [hnil]
      exact List.not_mem_nil
    obtain ⟨r, s', hreread, hrun⟩ := remove_stray hs hparent hmem (hsame hparent)
    exact ⟨s'.note r, hrun, hreread.trans (reread_note s' r)⟩
  · obtain ⟨r, hrun⟩ := remove_other hs hparent
    exact ⟨s.note r, hrun, reread_note s r⟩

open Run

namespace Matched

/-- The lists of a node are the same, or it has no children and is one of those that there are. -/
theorem sameList_or (h : Matched s t) (n : NodeId) :
    (s.node n).nodes = (t.node n).nodes ∨ s.children n = [] ∧ n < s.nodes.size := by
  by_cases hn : n < s.nodes.size
  · have hchildren : (s.node n).nodes.getD [] = (t.node n).nodes.getD [] := h.resembles.children n
    rw [children]
    cases hleft : (s.node n).nodes with
    | none => exact Or.inr ⟨rfl, hn⟩
    | some l =>
        rw [hleft] at hchildren
        cases hright : (t.node n).nodes with
        | none =>
            rw [hright] at hchildren
            exact Or.inr ⟨hchildren, hn⟩
        | some l' =>
            rw [hright] at hchildren
            exact Or.inl (congrArg some hchildren)
  · have hout : s.nodes.size ≤ n := Nat.le_of_not_lt hn
    rw [node_of_size_le s hout, node_of_size_le t (h.resembles.size ▸ hout)]
    exact Or.inl rfl

/-- **The same child is removed from matched stores.** -/
theorem agree_remove (h : Matched s t) (hfit : s.Fit) (n : NodeId) (child : Value) :
    Agree Matched (remove n child) s t := by
  rcases h.sameList_or n with hlist | ⟨hnil, hn⟩
  · exact ((congruence_sameList n).remove (fun h => h.2) ⟨h, hlist⟩ hfit child).mono fun _ _ hrel => hrel.1
  have hcheck := h.resembles.requireNode_eq "remove" child
  cases hleft : s.requireNode "remove" child with
  | error e =>
      have hright : t.requireNode "remove" child = .error e := hcheck ▸ hleft
      exact .of_error (bind_of_error (check_of_error hleft)) (bind_of_error (check_of_error hright)) h
  | ok _ =>
      obtain ⟨c, rfl⟩ := node_of_requireNode hfit.nodesOnly hleft
      have hsame (hparent : (s.node c).parent = some (.node n)) :
          (s.node c).cls.detached = (s.node n).cls.detached :=
        h.sentinel c (lt_size_of_parent hparent) n hn
      refine congruence.of_ended (x := .ok .null) h
        (remove_childless (congruence.regular_left h hfit) hnil hsame)
        (remove_childless (congruence.regular_right h hfit) ?_ fun hparent => ?_)
      · rw [← h.resembles.children n, hnil]
      · rw [← h.resembles.cls c, ← h.resembles.cls n]
        exact hsame (h.resembles.parent c ▸ hparent)

end Matched

end Store

/-! ## Runs -/

namespace Event

open Store Run

/-- What does not tell an absent list from an empty one, as far as nodes are concerned: adding and taking
away children, setting a hint to an integer, everything that is asked about nodes save for the list of
their siblings, and what the program around does. -/
inductive Indifferent : Event → Prop
  | push (n : NodeId) (child : Value) : Indifferent (act (.push (.node n) child))
  | unshift (n : NodeId) (child : Value) : Indifferent (act (.unshift (.node n) child))
  | pop (n : NodeId) : Indifferent (act (.pop (.node n)))
  | shift (n : NodeId) : Indifferent (act (.shift (.node n)))
  | remove (n : NodeId) (child : Value) : Indifferent (act (.remove (.node n) child))
  | assignIndex (n : NodeId) (i : Int) : Indifferent (act (.assign (.node n) "index" (.int i)))
  | read (n : NodeId) (name : String) : name ∈ properties → name ≠ "siblings" →
      Indifferent (act (.read (.node n) name))
  | find (n : NodeId) (matcher : Value) : Indifferent (act (.find (.node n) matcher))
  | isType (n : NodeId) (matcher : Value) : Indifferent (act (.isType (.node n) matcher))
  | hasType (n : NodeId) (matcher : Value) : Indifferent (act (.hasType (.node n) matcher))
  | isInside (n : NodeId) (matcher : Value) : Indifferent (act (.isInside (.node n) matcher))
  | isEmpty (n : NodeId) : Indifferent (act (.isEmpty (.node n)))
  | display (v : Value) : Indifferent (act (.display v))
  | search (n : NodeId) (predicate : Store → NodeId → Except Fault Bool) :
      (∀ s t : Store, s.Resembles t → predicate s = predicate t) → Indifferent (search n predicate)
  | make (o : Object) : Indifferent (make o)
  | collect (inUse : List Value) : Indifferent (collect inUse)

variable {s t : Store}

/-- **Every indifferent event gives the same answer in matched stores**, and leaves matched stores behind. -/
theorem agree_indifferent (h : Matched s t) (hfit : s.Fit) {e : Event} (he : Indifferent e) :
    Agree Matched e.perform s t := by
  cases he with
  -- what changes lists and hints
  | push n child => exact Agree.map (Matched.congruence.push h hfit.nodesOnly n child)
  | unshift n child => exact Agree.map (Matched.congruence.unshift h hfit.nodesOnly n child)
  | pop n => exact Matched.congruence.pop h n
  | shift n => exact Matched.congruence.shift h n
  | remove n child => exact h.agree_remove hfit n child
  | assignIndex n i => exact agree_unit (.update (Matched.congruence.setHint h n i))
  -- what is asked about nodes
  | read n name hname hsiblings =>
      exact agree_property Matched.congruence h hfit n hname fun hsame => absurd hsame hsiblings
  | find n matcher => exact Matched.congruence.question h fun h => h.find_eq n matcher
  | isType n matcher => exact Matched.congruence.truth h fun h => h.isType_eq n matcher
  | hasType n matcher => exact Matched.congruence.truth h fun h => h.hasType_eq n matcher
  | isInside n matcher => exact Matched.congruence.truth h fun h => h.isInside_eq n matcher
  | isEmpty n => exact Matched.congruence.truth h fun h => h.isEmpty_eq n
  | display v => exact Agree.map (Matched.congruence.question h fun h => h.display_eq v)
  | search n predicate hpredicate =>
      exact Matched.congruence.truth h fun h => by rw [hpredicate _ _ h, h.emptiness_eq]
  -- what the program around does
  | make o => exact h.resembles.agree_allocate (h.addObject o)
  | collect inUse => exact Agree.bind (.update (h.collect inUse)) fun _ _ _ h' => .pure Value.null h'

/-- **Absent and empty are equivalent.** From any store of nodes with integers for hints, nodes for parents
    and one value for "not there", a run of indifferent events gives the same answers and the same faults
    if any of the nodes without a list of children have an empty one instead, and after each of the events
    the stores resemble each other. On the way no list holds a node twice, and debug records can be
    written. -/
theorem performAll_withLists (hproper : ∀ n, (s.node n).Proper) (hsentinel : s.OneSentinel)
    (chosen : NodeId → Bool) {events : List Event}
    (hevents : Along (fun u e => u.Fit ∧ Indifferent e) events s) :
    (performAll events s).1 = (performAll events (s.withLists chosen)).1 ∧
      ∀ k, (performAll (events.take k) s).2.Resembles
        (performAll (events.take k) (s.withLists chosen)).2 := by
  have hmatched : Matched s (s.withLists chosen) := matched_withLists hproper hsentinel chosen
  have hrun {run : List Event} (hrun : Along (fun u e => u.Fit ∧ Indifferent e) run s) :=
    performAll_agree (fun h hok => agree_indifferent h hok.1 hok.2) hmatched hrun
  exact ⟨(hrun hevents).1, fun k => (hrun (hevents.take k)).2.resembles⟩

/-- A node without a list of children, and another with some value that calls it its parent. -/
def claimed (v : Value) (s : Store) : Store :=
  (performAll [.act (.create .node .empty), .act (.create .node ⟨v, .null, .node 0, .null⟩)] s).2

/-- The second node is removed from the first, added and taken away again, and asked for its index. -/
def takenBack : List Event :=
  [.act (.read (.node 1) "index"), .act (.remove (.node 0) (.node 1)), .act (.push (.node 0) (.node 1)),
   .act (.pop (.node 0)), .act (.read (.node 1) "index")]

theorem indifferent_takenBack :
    Along (fun u e => u.Fit ∧ Indifferent e) takenBack (claimed .null .empty) := by
  have hfit {u : Store} (hread : u.logIsRead = false)
      (hbounded : (∀ n < u.nodes.size, (u.children n).Nodup) ∧ ∀ o < u.objects.size, u.marker? o = none) :
      u.Fit := ⟨.of_bounded hbounded, fun h => by rw [hread] at h; cases h⟩
  refine ⟨⟨hfit rfl (by decide), .read _ _ (by decide) (by decide)⟩, ?_⟩
  refine ⟨⟨hfit rfl (by decide), .remove _ _⟩, ?_⟩
  refine ⟨⟨hfit rfl (by decide), .push _ _⟩, ?_⟩
  refine ⟨⟨hfit rfl (by decide), .pop _⟩, ?_⟩
  exact ⟨⟨hfit rfl (by decide), .read _ _ (by decide) (by decide)⟩, trivial⟩

/-- In the one store the first node has no list, in the other an empty one. -/
theorem takenBack_withLists :
    (∀ n, ((claimed .null .empty).node n).Proper) ∧ (claimed .null .empty).OneSentinel ∧
      Along (fun u e => u.Fit ∧ Indifferent e) takenBack (claimed .null .empty) ∧
      ((claimed .null .empty).node 0).nodes = none ∧
      (((claimed .null .empty).withLists (· = 0)).node 0).nodes = some [] ∧
      (performAll takenBack (claimed .null .empty)).1 =
        (performAll takenBack ((claimed .null .empty).withLists (· = 0))).1 ∧
      ∀ k, (performAll (takenBack.take k) (claimed .null .empty)).2.Resembles
        (performAll (takenBack.take k) ((claimed .null .empty).withLists (· = 0))).2 := by
  have hproper : ∀ n, ((claimed .null .empty).node n).Proper := forall_node (by decide) (by decide)
  have hsentinel : (claimed .null .empty).OneSentinel := by
    unfold OneSentinel
    decide
  refine ⟨hproper, hsentinel, indifferent_takenBack, rfl, rfl, ?_⟩
  exact performAll_withLists hproper hsentinel (· = 0) indifferent_takenBack

/-- **An empty list makes an index be looked for**, and where the record of that cannot be written the
    answer is a fault, while without a list it is the value for "not there". -/
theorem unshowable_not_withLists :
    (∀ n, ((claimed (.object 0) withTracker).node n).Proper) ∧
      (claimed (.object 0) withTracker).OneSentinel ∧
      Along (fun u e => u.Distinct ∧ Indifferent e) [.act (.read (.node 1) "index")]
        (claimed (.object 0) withTracker) ∧
      (performAll [.act (.read (.node 1) "index")] (claimed (.object 0) withTracker)).1 =
        [.ok (.int (-1))] ∧
      (performAll [.act (.read (.node 1) "index")]
        ((claimed (.object 0) withTracker).withLists (· = 0))).1 = [.error .endless] := by
  have hsentinel : (claimed (.object 0) withTracker).OneSentinel := by
    unfold OneSentinel
    decide
  refine ⟨forall_node (by decide) (by decide), hsentinel, ?_, rfl, rfl⟩
  exact ⟨⟨.of_bounded (by decide), .read _ _ (by decide) (by decide)⟩, trivial⟩

end Event

end SyntaxTree
