import Mathlib.Data.List.Basic
import SyntaxTree.Node.Call
import SyntaxTree.Proofs.Congruence
import SyntaxTree.Proofs.Construction

/-!
# `Proofs.Twins` — two stores that differ in hints

One of two `Twins` trusts its hints and the other does not; apart from hints, and from what stands in the
debug log, they are the same. Every operation in this file does the same to both and leaves twins behind.

For most operations that is so because they never look at a hint: they ask questions that have the same
answer without hints, and make changes that come out the same without them. The index, and what is read or
taken away through it, does look at hints; there the plain index decides in both stores.
-/

namespace SyntaxTree

namespace Store

variable {s t : Store}

/-- The stores differ in hints and in the debug log only; the first trusts its hints, the second does
not. -/
structure Twins (s t : Store) : Prop where
  same : s.unhinted = t.unhinted
  left : ∀ n, (s.node n).Proper
  right : ∀ n, (t.node n).Proper
  trusting : s.trustsHints = true
  naive : t.trustsHints = false

namespace Twins

theorem node_unhinted_eq (h : Twins s t) (n : NodeId) : (s.node n).unhinted = (t.node n).unhinted := by
  rw [← node_unhinted, h.same, node_unhinted]

theorem nodes_eq (h : Twins s t) (n : NodeId) : (s.node n).nodes = (t.node n).nodes := by
  show (s.node n).unhinted.nodes = (t.node n).unhinted.nodes
  rw [h.node_unhinted_eq n]

theorem resembles (h : Twins s t) : s.Resembles t := resembles_of_unhinted h.same

theorem size_eq (h : Twins s t) : s.nodes.size = t.nodes.size := h.resembles.size

theorem objects_eq (h : Twins s t) : s.objects = t.objects := h.resembles.objects

theorem logIsRead_eq (h : Twins s t) : s.logIsRead = t.logIsRead := h.resembles.logIsRead

/-- Reading indices leaves twins behind. -/
theorem reread {s' t' : Store} (h : Twins s t) (hs : s.Reread s') (ht : t.Reread t') : Twins s' t' where
  same := by rw [hs.unhinted, h.same, ht.unhinted]
  left n := hs.proper n (h.left n)
  right n := ht.proper n (h.right n)
  trusting := hs.trusts.trans h.trusting
  naive := ht.trusts.trans h.naive

/-! ## Changes -/

/-- Stores are the same without hints if their records are, one by one. -/
theorem unhinted_ext (hsize : s.nodes.size = t.nodes.size)
    (hnode : ∀ m, m < s.nodes.size → (s.node m).unhinted = (t.node m).unhinted)
    (hobjects : s.objects = t.objects) (hread : s.logIsRead = t.logIsRead) : s.unhinted = t.unhinted := by
  have hnodes : s.nodes.map NodeRecord.unhinted = t.nodes.map NodeRecord.unhinted :=
    map_nodes_ext NodeRecord.unhinted hsize hnode
  simp only [unhinted, hnodes, hobjects, hread]

/-- Changes of a node that come out the same without the hint. -/
theorem updateNodes (h : Twins s t) (n : NodeId) {f g : NodeRecord → NodeRecord}
    (hfg : ∀ r r', r.unhinted = r'.unhinted → (f r).unhinted = (g r').unhinted)
    (hf : ∀ r, r.Proper → (f r).Proper) (hg : ∀ r, r.Proper → (g r).Proper) :
    Twins (s.updateNode n f) (t.updateNode n g) := by
  refine ⟨unhinted_ext ?_ (fun m hm => ?_) h.objects_eq h.logIsRead_eq,
    proper_updateNode h.left n hf, proper_updateNode h.right n hg, h.trusting, h.naive⟩
  · rw [size_updateNode, size_updateNode, h.size_eq]
  · rw [size_updateNode] at hm
    by_cases hmn : m = n
    · subst hmn
      rw [node_updateNode_self s f hm, node_updateNode_self t g (h.size_eq ▸ hm)]
      exact hfg _ _ (h.node_unhinted_eq m)
    · rw [node_updateNode_of_ne s f hmn, node_updateNode_of_ne t g hmn]
      exact h.node_unhinted_eq m

/-- A change of a node that does not look at the hint. -/
theorem updateNode (h : Twins s t) (n : NodeId) {f : NodeRecord → NodeRecord}
    (hf : ∀ r, (f r).unhinted = (f r.unhinted).unhinted) (hproper : ∀ r, r.Proper → (f r).Proper) :
    Twins (s.updateNode n f) (t.updateNode n f) :=
  h.updateNodes n (fun r r' hr => by rw [hf r, hr, ← hf r']) hproper hproper

theorem addNodes (h : Twins s t) {r r' : NodeRecord} (hsame : r.unhinted = r'.unhinted) (hr : r.Proper)
    (hr' : r'.Proper) : Twins (s.addNode r) (t.addNode r') := by
  refine ⟨unhinted_ext ?_ (fun m hm => ?_) h.objects_eq h.logIsRead_eq,
    proper_addNode h.left hr, proper_addNode h.right hr', h.trusting, h.naive⟩
  · rw [size_addNode, size_addNode, h.size_eq]
  · rw [size_addNode] at hm
    rcases Nat.lt_succ_iff_lt_or_eq.mp hm with hlt | rfl
    · rw [node_addNode_of_lt s r hlt, node_addNode_of_lt t r' (h.size_eq ▸ hlt)]
      exact h.node_unhinted_eq m
    · have ht : (t.addNode r').node s.nodes.size = r' := by
        rw [h.size_eq]
        exact node_addNode_self t r'
      rw [node_addNode_self, ht, hsame]

theorem addNode (h : Twins s t) {r : NodeRecord} (hr : r.Proper) : Twins (s.addNode r) (t.addNode r) :=
  h.addNodes rfl hr hr

/-- A change that leaves nodes and flags alone and does not look at them. -/
theorem mapObjects (h : Twins s t) (f : Array Object → Array Object) :
    Twins { s with objects := f s.objects } { t with objects := f t.objects } where
  same := by
    show { s.unhinted with objects := f s.unhinted.objects } =
      { t.unhinted with objects := f t.unhinted.objects }
    rw [h.same]
  left := h.left
  right := h.right
  trusting := h.trusting
  naive := h.naive

theorem addObject (h : Twins s t) (o : Object) : Twins (s.addObject o) (t.addObject o) :=
  h.mapObjects fun objects => objects.push o

theorem updateObject (h : Twins s t) (o : ObjectId) (f : Object → Object) :
    Twins (s.updateObject o f) (t.updateObject o f) :=
  h.mapObjects fun objects => objects.modify o f

theorem note (h : Twins s t) (r : DebugRecord) : Twins (s.note r) (t.note r) :=
  ⟨h.same, h.left, h.right, h.trusting, h.naive⟩

theorem setHint (h : Twins s t) (n : NodeId) (i : Int) :
    Twins (s.setHint n (.int i)) (t.setHint n (.int i)) :=
  h.updateNode n (fun _ => rfl) fun _ hr => ⟨⟨i, rfl⟩, hr.parent_node⟩

theorem setParent (h : Twins s t) (n : NodeId) {parent : Option Value}
    (hparent : ∀ p, parent = some p → ∃ m, p = .node m) :
    Twins (s.setParent n parent) (t.setParent n parent) :=
  h.updateNode n (fun _ => rfl) fun _ hr => ⟨hr.hint_int, hparent⟩

theorem setNodes (h : Twins s t) (n : NodeId) (nodes : Option (List Value)) :
    Twins (s.setNodes n nodes) (t.setNodes n nodes) :=
  h.updateNode n (fun _ => rfl) fun _ hr => ⟨hr.hint_int, hr.parent_node⟩

/-- Nothing that is done to nodes tells twins apart. -/
theorem congruence : Congruence Twins where
  resembles h := h.resembles
  left h := h.left
  right h := h.right
  reread h := h.reread
  setParent h c p := h.setParent c fun q hq => ⟨p, by cases hq; rfl⟩
  setNodes h n l := h.setNodes n (some l)

end Twins

/-! ## Collecting -/

theorem cutParent_unhinted (alive : List Value) (r : NodeRecord) :
    (cutParent alive r).unhinted = cutParent alive r.unhinted := by
  obtain ⟨cls, type, value, nodes, attr, parent, hint⟩ := r
  cases parent with
  | none => rfl
  | some p =>
      by_cases hp : p ∈ alive <;> simp [cutParent, NodeRecord.unhinted, hp]

theorem proper_cutParent (alive : List Value) {r : NodeRecord} (hr : r.Proper) :
    (cutParent alive r).Proper := by
  rcases cutParent_parent_or alive r with hsame | hcut
  · rw [hsame]
    exact hr
  · rw [hcut]
    exact ⟨hr.hint_int, fun p hp => by cases hp⟩

/-- **Twins lose the same parents** when what is not in use any more is let go. -/
theorem Twins.collect (h : Twins s t) (inUse : List Value) :
    Twins (s.collect inUse) (t.collect inUse) := by
  have halive : s.reachable inUse = t.reachable inUse := h.resembles.reachable_eq h.left h.right inUse
  refine ⟨unhinted_ext ?_ (fun m _ => ?_) h.objects_eq h.logIsRead_eq, fun n => ?_, fun n => ?_,
    h.trusting, h.naive⟩
  · rw [size_collect, size_collect, h.size_eq]
  · rw [node_collect, node_collect, cutParent_unhinted, cutParent_unhinted, h.node_unhinted_eq m, halive]
  · rw [node_collect]
    exact proper_cutParent _ (h.left n)
  · rw [node_collect]
    exact proper_cutParent _ (h.right n)

end Store
end SyntaxTree
