import Mathlib.Algebra.BigOperators.Group.Finset.Basic
import SyntaxTree.Proofs.Making

/-!
# `Proofs.Attachment` — adding a node moves nothing

A node that is added to a list is added, whether or not it stands in a list already: no list loses anything.
What changes is one list and the parent of what was added (`Store.Added`). So the node stands in one place
more than before, however many these were (`occurrences_of_added`); and its parent, which is the node with
the longer list now, holds it once exactly if it did not hold it before. Nothing changes in this for any
other node (`heldOnce_of_added`).

Making a node from fields with children is adding them to the new node, one by one, after everything else
is done (`createUnplaced_adds`).
-/

namespace SyntaxTree

open Store

namespace Store

variable {s s' s'' t : Store} {p : NodeId} {vs ws l l' : List Value} {gone : NodeId → Prop}
  {cls : NodeClass}

/-! ## Lists that grow -/

/-- `s'` differs from `s` in that the list of `p` is `l`, and that the nodes among `vs` call `p` their
parent. -/
structure Added (s s' : Store) (p : NodeId) (vs l : List Value) : Prop where
  list : s'.children p = l
  others : ∀ q, q ≠ p → s'.children q = s.children q
  parent : ∀ c, .node c ∈ vs → (s'.node c).parent = some (.node p)
  parents : ∀ c, c < s.nodes.size → .node c ∉ vs → (s'.node c).parent = (s.node c).parent

theorem Added.refl (s : Store) (p : NodeId) : s.Added s p [] (s.children p) :=
  ⟨rfl, fun _ _ => rfl, fun _ hc => (by cases hc), fun _ _ _ => rfl⟩

/-- What grows twice has grown by both. -/
theorem Added.trans (h : s.Added s' p vs l) (h' : s'.Added s'' p ws l') (hsize : s'.nodes.size = s.nodes.size)
    (hvs : ∀ c, .node c ∈ vs → c < s.nodes.size) : s.Added s'' p (vs ++ ws) l' where
  list := h'.list
  others q hq := (h'.others q hq).trans (h.others q hq)
  parent c hc := by
    by_cases hws : Value.node c ∈ ws
    · exact h'.parent c hws
    · have hmem : Value.node c ∈ vs := (List.mem_append.mp hc).resolve_right hws
      rw [h'.parents c (hsize ▸ hvs c hmem) hws]
      exact h.parent c hmem
  parents c hc hnot := by
    rw [List.mem_append, not_or] at hnot
    rw [h'.parents c (hsize ▸ hc) hnot.2, h.parents c hc hnot.1]

theorem Added.of_nodes (h : s.Added s' p vs l) (hnodes : s''.nodes = s'.nodes) : s.Added s'' p vs l := by
  have hnode (n : NodeId) : s''.node n = s'.node n := by rw [node, node, hnodes]
  refine ⟨?_, fun q hq => ?_, fun c hc => ?_, fun c hc hnot => ?_⟩
  · rw [← h.list, children, hnode, children]
  · rw [← h.others q hq, children, hnode, children]
  · rw [hnode, h.parent c hc]
  · rw [hnode, h.parents c hc hnot]

/-- A node that is put into the list of another one. -/
theorem Attached.added {c : NodeId} (h : s.Attached s' p c) (hlist : s'.children p = l) :
    s.Added s' p [.node c] l where
  list := hlist
  others := h.others
  parent d hd := by
    rw [Value.node.inj (List.mem_singleton.mp hd)]
    exact h.parent
  parents d _ hd := h.parents d fun heq => hd (heq ▸ List.mem_singleton_self _)

/-- Adding one value at the end, be it a node or something that passes for one. -/
theorem added_append (hp : p < s.nodes.size) {v : Value} (hv : ∀ c, v = .node c → c < s.nodes.size) :
    s.Added (s.append p v) p [v] (s.children p ++ [v]) := by
  have hlist := children_append_self s v hp
  by_cases hnode : ∃ c, v = .node c
  · obtain ⟨c, rfl⟩ := hnode
    exact (attached_append hp (hv c rfl)).added hlist
  · have hnot (c : NodeId) : v ≠ .node c := fun heq => hnode ⟨c, heq⟩
    have hsame {q : NodeId} (hq : q ≠ p) : (s.append p v).node q = s.node q := by
      rw [node_append s v hq, if_neg fun h => hnot q h.1]
    refine ⟨hlist, fun q hq => ?_, fun c hc => ?_, fun c _ _ => ?_⟩
    · rw [children, hsame hq, children]
    · exact absurd (List.mem_singleton.mp hc).symm (hnot c)
    · by_cases hc : c = p
      · rw [append, parent_setNodes]
        cases v with
        | node d => exact absurd rfl (hnot d)
        | _ => rfl
      · rw [hsame hc]

theorem size_appendAll (s : Store) (p : NodeId) (vs : List Value) :
    (s.appendAll p vs).nodes.size = s.nodes.size := by
  induction vs generalizing s with
  | nil => rfl
  | cons v vs ih => exact (ih (s.append p v)).trans (size_append s p v)

/-- **Adding values one by one makes one list longer by them**, and no other list shorter. -/
theorem added_appendAll (hp : p < s.nodes.size) (hvs : ∀ c, .node c ∈ vs → c < s.nodes.size) :
    s.Added (s.appendAll p vs) p vs (s.children p ++ vs) := by
  induction vs generalizing s with
  | nil =>
      rw [List.append_nil]
      exact .refl s p
  | cons v vs ih =>
      have hsize := size_append s p v
      have hfirst : s.Added (s.append p v) p [v] (s.children p ++ [v]) :=
        added_append hp fun c hc => hvs c (hc ▸ List.mem_cons_self ..)
      have hrest := ih (s := s.append p v) (hsize ▸ hp) fun c hc =>
        hsize ▸ hvs c (List.mem_cons_of_mem _ hc)
      rw [hfirst.list, List.append_assoc] at hrest
      exact hfirst.trans hrest hsize fun c hc => hvs c (List.mem_cons.mpr (Or.inl (List.mem_singleton.mp hc)))

/-! ## Making a node with children -/

/-- What is filled differs from what was there before in one new node, which has no children. -/
theorem Filling.added_appendAll (h : s.Filling t) (hvs : ∀ c, .node c ∈ vs → c < s.nodes.size) :
    s.Added (t.appendAll s.nodes.size vs) s.nodes.size vs vs := by
  have hadded := Store.added_appendAll (s := t) h.lt_size fun c hc => Nat.lt_of_lt_of_le (hvs c hc) h.size
  rw [h.children, List.nil_append] at hadded
  refine ⟨hadded.list, fun q hq => ?_, hadded.parent, fun c hc hnot => ?_⟩
  · rw [hadded.others q hq]
    rcases Nat.lt_or_gt_of_ne hq with hlt | hgt
    · rw [Store.children, h.node q hlt, Store.children]
    · have hout : t.nodes.size ≤ q := h.one ▸ hgt
      rw [Store.children, node_of_size_le t hout, Store.children, node_of_size_le s (Nat.le_of_lt hgt)]
  · rw [hadded.parents c (Nat.lt_of_lt_of_le hc h.size) hnot, h.node c hc]

/-- The parent of a new node is nothing to the lists and to the other nodes. -/
theorem Added.setParent (h : s.Added t s.nodes.size vs l) (hvs : ∀ c, .node c ∈ vs → c < s.nodes.size)
    (parent : Option Value) : s.Added (t.setParent s.nodes.size parent) s.nodes.size vs l := by
  refine ⟨?_, fun q hq => ?_, fun c hc => ?_, fun c hc hnot => ?_⟩
  · rw [children_setParent, h.list]
  · rw [children_setParent, h.others q hq]
  · rw [node_setParent_of_ne t _ (Nat.ne_of_lt (hvs c hc)), h.parent c hc]
  · rw [node_setParent_of_ne t _ (Nat.ne_of_lt hc), h.parents c hc hnot]

/-- What passes for a node keeps its parent among its fields, and stays what it is otherwise. -/
theorem wrapper_appendAll {o tracker : ObjectId} {start : Value} (vs : List Value)
    (h : ∃ fields, s.object o = .wrapper tracker start fields) :
    ∃ fields, (s.appendAll p vs).object o = .wrapper tracker start fields := by
  induction vs generalizing s with
  | nil => exact h
  | cons v vs ih =>
      refine ih (s := s.append p v) ?_
      have hfield {u : Store} (q : ObjectId) (name : String) (w : Value)
          (hu : ∃ fields, u.object o = .wrapper tracker start fields) :
          ∃ fields, (u.setFreeField q name w).object o = .wrapper tracker start fields := by
        obtain ⟨fields, hobject⟩ := hu
        rw [setFreeField, object_updateObject, hobject]
        split
        · exact ⟨_, rfl⟩
        · exact ⟨fields, rfl⟩
      cases v with
      | object q => exact hfield q "index" _ (hfield q "parent" _ h)
      | _ => exact h

/-- Extra attributes stand in objects, and no record of a node changes with them. -/
theorem nodes_assignExtra (n : NodeId) (key : Key) (v : Value) :
    Run.Preserves (fun t => t.nodes = s.nodes) (assignExtra n key v) := by
  intro t ht
  rw [assignExtra, Run.ends_bind, Run.ends_check]
  cases hput : t.setExtra n key v with
  | error e => exact ht
  | ok t' => exact (nodes_setExtra hput).trans ht

/-- A wrapper stamps a node, and changes no record of a node by it. -/
theorem nodes_stamp (tracker : ObjectId) (start : Value) (n : NodeId) :
    Run.Preserves (fun t => t.nodes = s.nodes) (stamp tracker start (.node n)) := by
  have hallocate (o : Object) : Run.Preserves (fun t => t.nodes = s.nodes) (Run.allocate o) :=
    .allocate fun _ ht => ht
  refine (Run.Preserves.read _).bind fun standing => ?_
  obtain ⟨source, line, column⟩ := standing
  refine (hallocate _).bind fun finish => (hallocate _).bind fun span => ?_
  exact (nodes_assignExtra n (.text "position") span).bind fun _ => .pure _

/-! ## Places -/

/-- The number of places at which a node stands in the lists of some nodes together. -/
def occurrences (s : Store) (among : Finset NodeId) (c : NodeId) : Nat :=
  ∑ q ∈ among, (s.children q).count (.node c)

/-- If the node has a parent, that holds it exactly once. -/
def HeldOnce (s : Store) (c : NodeId) : Prop :=
  ∀ q, (s.node c).parent = some (.node q) → (s.children q).count (.node c) = 1

/-- **There are as many places more as were added**, wherever the node stood before. -/
theorem occurrences_of_added (h : s.Added s' p vs l) (hl : l.Perm (s.children p ++ vs))
    {among : Finset NodeId} (hp : p ∈ among) (c : NodeId) :
    s'.occurrences among c = s.occurrences among c + vs.count (.node c) := by
  have hothers : ∑ q ∈ among.erase p, (s'.children q).count (.node c) =
      ∑ q ∈ among.erase p, (s.children q).count (.node c) :=
    Finset.sum_congr rfl fun q hq => by rw [h.others q (Finset.ne_of_mem_erase hq)]
  have hlonger : (s'.children p).count (.node c) = (s.children p).count (.node c) + vs.count (.node c) := by
    rw [h.list, hl.count_eq, List.count_append]
  rw [occurrences, occurrences, ← Finset.add_sum_erase among _ hp, ← Finset.add_sum_erase among _ hp,
    hothers, hlonger]
  omega

/-- **What was added is held once exactly if it was not held before**; for other nodes nothing changes. -/
theorem heldOnce_of_added (h : s.Added s' p vs l) (hl : l.Perm (s.children p ++ vs)) {c : NodeId}
    (hc : c < s.nodes.size) :
    s'.HeldOnce c ↔
      if .node c ∈ vs then (s.children p).count (.node c) + vs.count (.node c) = 1 else s.HeldOnce c := by
  have hcount (q : NodeId) : (s'.children q).count (.node c) =
      (s.children q).count (.node c) + if q = p then vs.count (.node c) else 0 := by
    by_cases hq : q = p
    · rw [if_pos hq, hq, h.list, hl.count_eq, List.count_append]
    · rw [if_neg hq, h.others q hq, Nat.add_zero]
  by_cases hmem : Value.node c ∈ vs
  · -- the parent of what was added is `p`
    rw [if_pos hmem, HeldOnce, h.parent c hmem]
    constructor
    · intro honce
      rw [← honce p rfl, hcount p, if_pos rfl]
    · intro honce q hq
      cases hq
      rw [hcount p, if_pos rfl, honce]
  · have hnone : vs.count (.node c) = 0 := List.count_eq_zero.mpr hmem
    rw [if_neg hmem, HeldOnce, h.parents c hc hmem]
    refine forall₂_congr fun q _ => ?_
    rw [hcount q, hnone, ite_self, Nat.add_zero]

/-! ## Calls that add -/

end Store

namespace Action

variable {s s' : Store} {a : Action} {p : NodeId} {vs l : List Value} {v : Value}

/-- What is given for a position is nothing, or a wrapper. -/
def Placed (s : Store) (position : Value) : Prop :=
  position = .null ∨ ∃ o tracker start fields, position = .object o ∧ s.object o = .wrapper tracker start fields

/-- The call adds `vs` to the list of `p`, which is `l` then. The position of a new node may be a wrapper. -/
inductive Adds (s : Store) : Action → NodeId → List Value → List Value → Prop
  | push (p c : NodeId) : p < s.nodes.size → c < s.nodes.size →
      Adds s (.push (.node p) (.node c)) p [.node c] (s.children p ++ [.node c])
  | unshift (p c : NodeId) : p < s.nodes.size → c < s.nodes.size →
      Adds s (.unshift (.node p) (.node c)) p [.node c] (.node c :: s.children p)
  | create (cls : NodeClass) (given : Construction) (vs : List Value) :
      (∀ o, given.value = .object o → o < s.objects.size) →
      (∀ v ∈ given.parents s cls, v ≠ .null → ∃ q, v = .node q ∧ q < s.nodes.size) →
      given.children s cls = .ok vs → (∀ c, .node c ∈ vs → c < s.nodes.size) →
      Placed s given.position → Adds s (.create cls given) s.nodes.size vs vs

theorem Adds.perm (h : Adds s a p vs l) : l.Perm (s.children p ++ vs) := by
  cases h with
  | push p c => exact .refl _
  | unshift p c => exact (List.perm_append_singleton _ _).symm
  | create cls given vs =>
      rw [children, node_of_size_le s (Nat.le_refl _)]
      exact .refl _

/-- Making the node leaves the wrapper a wrapper. -/
theorem placed_createUnplaced {cls : NodeClass} {given : Construction} {gone : NodeId → Prop}
    (hexist : ∀ o, given.value = .object o → o < s.objects.size)
    (hparents : ∀ v ∈ given.parents s cls, v ≠ .null → ∃ q, v = .node q ∧ s.Living gone q)
    (hchildren : given.children s cls = .ok vs) (h : Placed s given.position) :
    Run.Ends (createUnplaced cls given) s (fun _ u => Placed u given.position) fun _ _ => True := by
  refine (createUnplaced_adds hexist hparents hchildren).mono ?_ fun _ _ _ => trivial
  rintro n u ⟨-, t, ht, hu⟩
  refine h.imp id fun ⟨o, tracker, start, fields, hwrapped, hwrapper⟩ => ?_
  have ho : o < s.objects.size := lt_size_of_object (hwrapper ▸ fun heq => (by cases heq))
  obtain ⟨fields', hwrapper'⟩ := wrapper_appendAll (s := t) (p := s.nodes.size) vs
    ⟨fields, (ht.object o ho).trans hwrapper⟩
  refine ⟨o, tracker, start, fields', hwrapped, ?_⟩
  rcases hu with rfl | ⟨q, -, rfl⟩
  · exact hwrapper'
  · exact hwrapper'

/-- Without a position, or with a wrapper for one, making a node ends with the records it had before. -/
theorem create_nodes {cls : NodeClass} {given : Construction} {n : NodeId} {t : Store}
    (hposition : Placed t given.position) (hmade : createUnplaced cls given s = .ok n t) :
    Run.Ends (Store.create cls given) s (fun m u => m = n ∧ u.nodes = t.nodes) fun _ _ => True := by
  rw [Store.create, Run.ends_bind, Run.ends_of_ok hmade]
  refine Run.ends_ite.mpr ⟨fun hcalled => ?_, fun _ => ⟨rfl, rfl⟩⟩
  rcases hposition with hnull | ⟨o, tracker, start, fields, hwrapped, hwrapper⟩
  · exact absurd hnull hcalled
  · have hstamp := nodes_stamp (s := t) tracker start n t rfl
    rw [hwrapped, Run.ends_bind, Run.Ends, call_wrapper hwrapper n]
    exact hstamp.mono (fun _ _ hu => ⟨rfl, hu⟩) fun _ _ _ => trivial

/-- **A call that adds changes the list and the parents that it is said to change**, and no other. -/
theorem Adds.added (h : Adds s a p vs l) :
    Run.Ends a.perform s (fun _ t => s.Added t p vs l) fun _ _ => True := by
  cases h with
  | push p c hp hc =>
      refine Run.ends_map.mpr ((Run.ends_of_ok (push_node s p c)).mpr ?_)
      exact added_append hp fun d hd => Value.node.inj hd ▸ hc
  | unshift p c hp hc =>
      refine Run.ends_map.mpr ((Run.ends_of_ok (unshift_node s p c)).mpr ?_)
      exact (attached_prepend hp hc).added (children_prepend_self s (.node c) hp)
  | create cls given vs hexist hparents hchildren hvs hposition =>
      have hliving : ∀ w ∈ given.parents s cls, w ≠ .null →
          ∃ q, w = .node q ∧ s.Living (fun _ => False) q := by
        intro w hw hnull
        obtain ⟨q, hq, hlt⟩ := hparents w hw hnull
        exact ⟨q, hq, hlt, id⟩
      have hends := createUnplaced_adds hexist hliving hchildren
      refine Run.ends_map.mpr ?_
      cases hmade : createUnplaced cls given s with
      | error e t =>
          rw [Store.create, Run.ends_bind, Run.ends_of_error hmade]
          trivial
      | ok n u =>
          obtain ⟨rfl, t, ht, hu⟩ := (Run.ends_of_ok hmade).mp hends
          have hfilled := ht.toFilling.added_appendAll hvs
          have hadded : s.Added u s.nodes.size vs vs := by
            rcases hu with rfl | ⟨q, -, rfl⟩
            · exact hfilled
            · exact hfilled.setParent hvs _
          have hplaced : Placed u given.position :=
            (Run.ends_of_ok hmade).mp (placed_createUnplaced hexist hliving hchildren hposition)
          refine (create_nodes hplaced hmade).mono (fun m u' hu' => ?_) fun _ _ _ => trivial
          exact hadded.of_nodes hu'.2

/-- **Adding moves nothing.** The list of `p` gets longer and `p` is the parent of what was added; every other
list stays, so that there are as many places more as were added. What was added is held once by its parent
exactly if `p` did not hold it before and it was given once, and every other node as long as it was before. -/
theorem adds_moves_nothing (h : Adds s a p vs l) (hrun : a.perform s = .ok v s') :
    s'.children p = l ∧ (∀ q, q ≠ p → s'.children q = s.children q) ∧
      (∀ c, .node c ∈ vs → (s'.node c).parent = some (.node p)) ∧
      (∀ (among : Finset NodeId), p ∈ among → ∀ c,
        s'.occurrences among c = s.occurrences among c + vs.count (.node c)) ∧
      ∀ c < s.nodes.size, s'.HeldOnce c ↔
        if .node c ∈ vs then (s.children p).count (.node c) + vs.count (.node c) = 1 else s.HeldOnce c := by
  have hadded : s.Added s' p vs l := (Run.ends_of_ok hrun).mp h.added
  refine ⟨hadded.list, hadded.others, hadded.parent, fun among hp c => ?_, fun c hc => ?_⟩
  · exact occurrences_of_added hadded h.perm hp c
  · exact heldOnce_of_added hadded h.perm hc

/-- A node with a child, and another node without one. -/
def withChild : Store :=
  (performAll [.create .node .empty, .create .node .empty, .create .node .empty,
    .push (.node 0) (.node 1)] .empty).2

/-- A child that is pushed under another node stands in both lists, and its parent holds it once. -/
theorem second_parent_moves_nothing :
    (Run.after ((push (.node 2) (.node 1)).perform withChild)).occurrences {0, 2} 1 = 2 ∧
      (Run.after ((push (.node 2) (.node 1)).perform withChild)).HeldOnce 1 := by
  have hadds : Adds withChild (.push (.node 2) (.node 1)) 2 [.node 1] [.node 1] :=
    .push 2 1 (by decide) (by decide)
  obtain ⟨-, -, -, hplaces, honce⟩ := adds_moves_nothing hadds rfl
  refine ⟨?_, (honce 1 (by decide)).mpr ?_⟩
  · exact (hplaces {0, 2} (by decide) 1).trans (by decide)
  · rw [if_pos (List.mem_singleton_self _)]
    decide

/-- **Pushing a child again does not move it.** Its parent lists it twice then. -/
theorem pushed_again_held_twice :
    withChild.HeldOnce 1 ∧
      Run.outcome ((push (.node 0) (.node 1)).perform withChild) = .ok (.int 2) ∧
      (Run.after ((push (.node 0) (.node 1)).perform withChild)).children 0 = [.node 1, .node 1] ∧
      (Run.after ((push (.node 0) (.node 1)).perform withChild)).occurrences {0, 1, 2} 1 = 2 ∧
      ¬ (Run.after ((push (.node 0) (.node 1)).perform withChild)).HeldOnce 1 := by
  refine ⟨fun q hq => ?_, rfl, rfl, by decide, fun honce => ?_⟩
  · cases hq
    rfl
  · have htwice : [Value.node 1, .node 1].count (.node 1) = 1 := honce 0 rfl
    exact absurd htwice (by decide)

end Action
end SyntaxTree
