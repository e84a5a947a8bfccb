import SyntaxTree.Proofs.Forest
import SyntaxTree.Proofs.Mutation

/-!
# `Proofs.Grafting` — forests that are cut and grafted

Lists of children change in two ways. They lose members, or a whole store loses what is not in use any
more (`Forest.shrink`); and a node that stands in no list, and does not lead to its new parent, is put into
the list of one (`Forest.attach`). Both leave a forest behind. For the first this is plain, since there is
less of everything. For the second the one thing to be seen is that the new link closes no cycle: a way
that uses it leads from below its child to its parent.
-/

namespace SyntaxTree
namespace Store

open Relation

variable {s s' s'' : Store} {alive alive' : NodeId → Prop}

/-- That no node is in two lists follows from the parent links, if no list holds a node twice. -/
theorem Forest.of_lists (exist : ∀ n, alive n → n < s.nodes.size)
    (child : ∀ p v, alive p → v ∈ s.children p → ∃ c, v = .node c ∧ alive c)
    (nodup : ∀ p, alive p → (s.children p).Nodup)
    (parent : ∀ p c, alive p → s.Holds p c → (s.node c).parent = some (.node p))
    (acyclic : ∀ n, alive n → ¬ TransGen s.Holds n n)
    (above : ∀ n p, alive n → (s.node n).parent = some (.node p) → alive p) : s.Forest alive where
  exist := exist
  child := child
  once p q c i j hp hq hi hj := by
    have hpc := parent p c hp (List.mem_of_getElem? hi)
    have hqc := parent q c hq (List.mem_of_getElem? hj)
    have hpq : p = q := Value.node.inj (Option.some.inj (hpc.symm.trans hqc))
    subst hpq
    have hlt := (List.getElem?_eq_some_iff.mp hi).1
    exact ⟨rfl, (List.getElem?_inj hlt (nodup p hp)).mp (hi.trans hj.symm)⟩
  parent := parent
  acyclic := acyclic
  above := above

/-! ## Cutting -/

/-- **A forest of which parts are taken away is a forest.** Lists lose members, and nodes pass out of use;
    what is left in a list is still in use. -/
theorem Forest.shrink (h : s.Forest alive) (hliving : ∀ n, alive' n → alive n)
    (hsize : s.nodes.size ≤ s'.nodes.size)
    (hchildren : ∀ p, alive' p → (s'.children p).Sublist (s.children p))
    (hchild : ∀ p c, alive' p → s'.Holds p c → alive' c)
    (hparent : ∀ p c, alive' p → s'.Holds p c → (s'.node c).parent = (s.node c).parent)
    (habove : ∀ n p, alive' n → (s'.node n).parent = some (.node p) → alive' p) :
    s'.Forest alive' := by
  have hholds {p c : NodeId} (hp : alive' p) (hc : s'.Holds p c) : s.Holds p c :=
    (hchildren p hp).subset hc
  refine .of_lists (fun n hn => ?_) (fun p v hp hv => ?_) (fun p hp => ?_) (fun p c hp hc => ?_)
    (fun n hn hcycle => ?_) habove
  · exact Nat.lt_of_lt_of_le (h.exist n (hliving n hn)) hsize
  · -- what is left in a list was in it before
    obtain ⟨c, rfl, -⟩ := h.child p v (hliving p hp) ((hchildren p hp).subset hv)
    exact ⟨c, rfl, hchild p c hp hv⟩
  · exact (h.children_nodup (hliving p hp)).sublist (hchildren p hp)
  · rw [hparent p c hp hc]
    exact h.parent p c (hliving p hp) (hholds hp hc)
  · -- a cycle of what is left is a cycle of before
    have hway {m : NodeId} (hm : TransGen s'.Holds n m) : alive' m ∧ TransGen s.Holds n m := by
      induction hm with
      | single hc => exact ⟨hchild n _ hn hc, .single (hholds hn hc)⟩
      | tail _ hc ih => exact ⟨hchild _ _ ih.1 hc, ih.2.tail (hholds ih.1 hc)⟩
    exact h.acyclic n (hliving n hn) (hway hcycle).2

/-- `s'` has the nodes of `s` with the same parents; lists of children may have lost members, and hints may
have changed. -/
structure Trimmed (s s' : Store) : Prop where
  size : s'.nodes.size = s.nodes.size
  children : ∀ n, (s'.children n).Sublist (s.children n)
  parent : ∀ n, (s'.node n).parent = (s.node n).parent
  hint_int : ∀ n, (∃ i : Int, (s.node n).hint = .int i) → ∃ i : Int, (s'.node n).hint = .int i

namespace Trimmed

theorem refl (s : Store) : s.Trimmed s :=
  ⟨rfl, fun _ => List.Sublist.refl _, fun _ => rfl, fun _ h => h⟩

theorem trans (h : s.Trimmed s') (h' : s'.Trimmed s'') : s.Trimmed s'' where
  size := h'.size.trans h.size
  children n := (h'.children n).trans (h.children n)
  parent n := (h'.parent n).trans (h.parent n)
  hint_int n hn := h'.hint_int n (h.hint_int n hn)

/-- What has the same nodes is trimmed by nothing. -/
theorem of_nodes (h : s'.nodes = s.nodes) : s.Trimmed s' := by
  have hnode (n : NodeId) : s'.node n = s.node n := by rw [node, node, h]
  refine ⟨by rw [h], fun n => ?_, fun n => by rw [hnode], fun n hn => by rw [hnode]; exact hn⟩
  rw [Store.children, Store.children, hnode]

theorem proper (h : s.Trimmed s') (n : NodeId) (hn : (s.node n).Proper) : (s'.node n).Proper :=
  ⟨h.hint_int n hn.hint_int, fun p hp => hn.parent_node p (h.parent n ▸ hp)⟩

theorem forest (h : s.Trimmed s') (hforest : s.Forest alive) : s'.Forest alive := by
  refine hforest.shrink (fun _ hn => hn) (Nat.le_of_eq h.size.symm) (fun p _ => h.children p)
    (fun p c hp hc => ?_) (fun p c _ _ => h.parent c) fun n p hn hp => ?_
  · exact hforest.alive_of_holds hp ((h.children p).subset hc)
  · exact hforest.above n p hn (h.parent n ▸ hp)

end Trimmed

/-! ## Grafting -/

/-- `c` has been put into the list of `p`, somewhere. -/
structure Attached (s s' : Store) (p c : NodeId) : Prop where
  size : s'.nodes.size = s.nodes.size
  children : (s'.children p).Perm (.node c :: s.children p)
  others : ∀ n, n ≠ p → s'.children n = s.children n
  parent : (s'.node c).parent = some (.node p)
  parents : ∀ n, n ≠ c → (s'.node n).parent = (s.node n).parent

/-- Adding at the end and adding at the front come down to this. -/
theorem attached_link {p c : NodeId} (hp : p < s.nodes.size) (hc : c < s.nodes.size) (hint : Value)
    {l : List Value} (hperm : l.Perm (.node c :: s.children p)) :
    s.Attached (((s.setParent c (some (.node p))).setHint c hint).setNodes p (some l)) p c where
  size := by rw [setNodes, size_updateNode, setHint, size_updateNode, setParent, size_updateNode]
  children := by
    have hlt : p < ((s.setParent c (some (.node p))).setHint c hint).nodes.size := by
      rw [setHint, size_updateNode, setParent, size_updateNode]
      exact hp
    rw [children, node_setNodes_self _ _ hlt]
    exact hperm
  others n hn := by
    rw [children, node_setNodes_of_ne _ _ hn, ← children, children_setHint, children_setParent]
  parent := by
    rw [parent_setNodes, parent_setHint, node_setParent_self s _ hc]
  parents n hn := by
    rw [parent_setNodes, parent_setHint, node_setParent_of_ne s _ hn]

theorem attached_append {p c : NodeId} (hp : p < s.nodes.size) (hc : c < s.nodes.size) :
    s.Attached (s.append p (.node c)) p c :=
  attached_link hp hc _ (List.perm_append_singleton _ _)

theorem attached_prepend {p c : NodeId} (hp : p < s.nodes.size) (hc : c < s.nodes.size) :
    s.Attached (s.prepend p (.node c)) p c :=
  attached_link hp hc _ (.refl _)

/-- The links are those of before and the new one. -/
theorem Attached.holds_iff {p c q d : NodeId} (h : s.Attached s' p c) :
    s'.Holds q d ↔ s.Holds q d ∨ q = p ∧ d = c := by
  by_cases hq : q = p
  · subst hq
    rw [Holds, h.children.mem_iff, List.mem_cons, Holds]
    constructor
    · rintro (heq | hd)
      · exact Or.inr ⟨rfl, Value.node.inj heq⟩
      · exact Or.inl hd
    · rintro (hd | ⟨-, rfl⟩)
      · exact Or.inr hd
      · exact Or.inl rfl
  · rw [Holds, h.others q hq, Holds]
    constructor
    · exact Or.inl
    · rintro (hd | ⟨heq, -⟩)
      · exact hd
      · exact absurd heq hq

/-- A way along the links is a way of before, or leads through the new link once. -/
theorem Attached.way {p c n m : NodeId} (h : s.Attached s' p c) (hdown : ¬ ReflTransGen s.Holds c p)
    (hm : TransGen s'.Holds n m) :
    TransGen s.Holds n m ∨ ReflTransGen s.Holds n p ∧ ReflTransGen s.Holds c m := by
  induction hm with
  | single hd =>
      rcases h.holds_iff.mp hd with hd | ⟨rfl, rfl⟩
      · exact Or.inl (.single hd)
      · exact Or.inr ⟨.refl, .refl⟩
  | tail _ hd ih =>
      rcases h.holds_iff.mp hd with hd | ⟨rfl, rfl⟩
      · rcases ih with hway | ⟨hup, hway⟩
        · exact Or.inl (hway.tail hd)
        · exact Or.inr ⟨hup, hway.tail hd⟩
      · rcases ih with hway | ⟨-, hway⟩
        · exact Or.inr ⟨hway.to_reflTransGen, .refl⟩
        · exact absurd hway hdown

/-- **A forest into which a free node is grafted is a forest**, unless the node leads to its new parent. -/
theorem Forest.attach (h : s.Forest alive) {p c : NodeId} (hp : alive p) (hc : alive c)
    (hfree : ∀ q, alive q → ¬ s.Holds q c) (hdown : ¬ ReflTransGen s.Holds c p)
    (hattached : s.Attached s' p c) : s'.Forest alive := by
  refine .of_lists (fun n hn => ?_) (fun q v hq hv => ?_) (fun q hq => ?_) (fun q d hq hd => ?_)
    (fun n hn hcycle => ?_) (fun n q hn hq => ?_)
  · rw [hattached.size]
    exact h.exist n hn
  · -- what is in a list is a living node
    by_cases hqp : q = p
    · subst hqp
      rcases List.mem_cons.mp (hattached.children.mem_iff.mp hv) with rfl | hv
      · exact ⟨c, rfl, hc⟩
      · exact h.child q v hq hv
    · rw [hattached.others q hqp] at hv
      exact h.child q v hq hv
  · -- no list holds anything twice: the new child was in none
    by_cases hqp : q = p
    · subst hqp
      rw [hattached.children.nodup_iff]
      exact List.nodup_cons.mpr ⟨hfree q hq, h.children_nodup hq⟩
    · rw [hattached.others q hqp]
      exact h.children_nodup hq
  · -- parents agree with the lists
    rcases hattached.holds_iff.mp hd with hd | ⟨rfl, rfl⟩
    · have hdc : d ≠ c := by
        intro heq
        exact hfree q hq (heq ▸ hd)
      rw [hattached.parents d hdc]
      exact h.parent q d hq hd
    · exact hattached.parent
  · -- a way round over the new link would lead from the child to its parent
    rcases hattached.way hdown hcycle with hway | ⟨hup, hway⟩
    · exact h.acyclic n hn hway
    · exact hdown (hway.trans hup)
  · -- parents are living nodes
    by_cases hnc : n = c
    · subst hnc
      have heq : some (Value.node q) = some (.node p) := hq.symm.trans hattached.parent
      cases heq
      exact hp
    · exact h.above n q hn (hattached.parents n hnc ▸ hq)

end Store
end SyntaxTree
