import Mathlib.Logic.Relation
import Mathlib.Data.Finset.Card
import SyntaxTree.Node.Subtree
import SyntaxTree.Proofs.Neighbours

/-!
# `Proofs.Forest` — stores whose living nodes are trees

A node keeps its parent link when it is taken out of a list, so the parent links alone do not say which
trees there are; the lists of children do. `Forest` is what the lists and the links have to do with each
other as long as every node is in one list at most: the link of a child leads back to the list, and going
down along the lists never comes back.

A store never lets go of a node, so the conditions are about the nodes that are `alive` only. What is
below a living node is alive, and so is its parent.

The set `below` a node shrinks from a node to its children. That measure bounds every walk down a tree
(`subtree_of_acyclic`: the tree below a node can be unfolded) and every climb (`exists_topmost`).
-/

namespace SyntaxTree
namespace Store

variable {s : Store} {alive : NodeId → Prop}

/-- `c` is in the list of children of `p`. -/
def Holds (s : Store) (p c : NodeId) : Prop := Value.node c ∈ s.children p

instance (s : Store) (p c : NodeId) : Decidable (s.Holds p c) :=
  inferInstanceAs (Decidable (Value.node c ∈ s.children p))

/-- Going down from a living node meets living nodes only, and does not come back. Nodes may be shared: one
may stand in several lists, and several times in one. -/
structure Acyclic (s : Store) (alive : NodeId → Prop) : Prop where
  exist : ∀ n, alive n → n < s.nodes.size
  child : ∀ p v, alive p → v ∈ s.children p → ∃ c, v = .node c ∧ alive c
  acyclic : ∀ n, alive n → ¬ Relation.TransGen s.Holds n n

namespace Acyclic

theorem alive_of_holds (h : s.Acyclic alive) {p c : NodeId} (hp : alive p) (hc : s.Holds p c) :
    alive c := by
  obtain ⟨d, hd, halive⟩ := h.child p _ hp hc
  cases hd
  exact halive

/-- What is below a living node is alive. -/
theorem alive_of_below (h : s.Acyclic alive) {n m : NodeId} (hn : alive n)
    (hm : Relation.ReflTransGen s.Holds n m) : alive m := by
  induction hm with
  | refl => exact hn
  | tail _ hc ih => exact h.alive_of_holds ih hc

end Acyclic

/-- If every child stands after the node that has it, no way along the children comes back. -/
theorem acyclic_of_ordered {n : NodeId} (hn : n < s.nodes.size)
    (h : ∀ p < s.nodes.size, ∀ v ∈ s.children p, ∃ c < s.nodes.size, p < c ∧ v = .node c) :
    s.Acyclic (Relation.ReflTransGen s.Holds n) := by
  have hholds {p : NodeId} {v : Value} (hv : v ∈ s.children p) : ∃ c < s.nodes.size, p < c ∧ v = .node c := by
    refine h p (Nat.lt_of_not_le fun hle => ?_) v hv
    rw [children, node_of_size_le s hle] at hv
    cases hv
  have hstep {p c : NodeId} (hc : s.Holds p c) : c < s.nodes.size ∧ p < c := by
    obtain ⟨d, hd, hlt, heq⟩ := hholds hc
    cases heq
    exact ⟨hd, hlt⟩
  have hdown {p c : NodeId} (hc : Relation.TransGen s.Holds p c) : p < c := by
    induction hc with
    | single hc => exact (hstep hc).2
    | tail _ hc ih => exact Nat.lt_trans ih (hstep hc).2
  refine ⟨fun m hm => ?_, fun p v hp hv => ?_, fun m _ hcycle => Nat.lt_irrefl m (hdown hcycle)⟩
  · rcases hm.cases_tail with rfl | ⟨p, -, hm⟩
    · exact hn
    · exact (hstep hm).1
  · obtain ⟨c, -, -, rfl⟩ := hholds hv
    exact ⟨c, rfl, hp.tail hv⟩

/-- The lists of children of the living nodes form a forest, and the parent links of all children agree
with them. The parent link of a node in no list may lead to any living node. -/
structure Forest (s : Store) (alive : NodeId → Prop) : Prop where
  exist : ∀ n, alive n → n < s.nodes.size
  child : ∀ p v, alive p → v ∈ s.children p → ∃ c, v = .node c ∧ alive c
  /-- Every node occurs at most once over all lists together. -/
  once : ∀ (p q c : NodeId) (i j : Nat), alive p → alive q → (s.children p)[i]? = some (.node c) →
    (s.children q)[j]? = some (.node c) → p = q ∧ i = j
  parent : ∀ p c, alive p → s.Holds p c → (s.node c).parent = some (.node p)
  acyclic : ∀ n, alive n → ¬ Relation.TransGen s.Holds n n
  above : ∀ n p, alive n → (s.node n).parent = some (.node p) → alive p

namespace Forest

theorem toAcyclic (h : s.Forest alive) : s.Acyclic alive := ⟨h.exist, h.child, h.acyclic⟩

theorem alive_of_holds (h : s.Forest alive) {p c : NodeId} (hp : alive p) (hc : s.Holds p c) :
    alive c := h.toAcyclic.alive_of_holds hp hc

theorem alive_of_below (h : s.Forest alive) {n m : NodeId} (hn : alive n)
    (hm : Relation.ReflTransGen s.Holds n m) : alive m := h.toAcyclic.alive_of_below hn hm

/-- A node has one holder at most. -/
theorem holder_unique (h : s.Forest alive) {p q c : NodeId} (hp : alive p) (hq : alive q)
    (hpc : s.Holds p c) (hqc : s.Holds q c) : p = q := by
  have heq : some (Value.node p) = some (.node q) :=
    (h.parent p c hp hpc).symm.trans (h.parent q c hq hqc)
  cases heq
  rfl

theorem children_nodup (h : s.Forest alive) {p : NodeId} (hp : alive p) : (s.children p).Nodup := by
  rw [List.nodup_iff_getElem?_ne_getElem?]
  intro i j hij hj heq
  obtain ⟨c, hc, -⟩ := h.child p _ hp (List.getElem_mem hj)
  have hjc : (s.children p)[j]? = some (.node c) := by rw [List.getElem?_eq_getElem hj, hc]
  exact Nat.ne_of_lt hij (h.once p p c i j hp hp (heq.trans hjc) hjc).2

theorem tidy (h : s.Forest alive) : s.Tidy alive where
  siblings n hn := by
    unfold siblingList
    split
    · next p hp => exact h.children_nodup (h.above n p hn hp)
    · exact List.nodup_nil
  above := h.above

/-- The siblings of a child are the children of its holder. -/
theorem siblingList_of_holds (h : s.Forest alive) {p c : NodeId} (hp : alive p) (hc : s.Holds p c) :
    s.siblingList c = s.children p :=
  siblingList_of_parent (h.parent p c hp hc)

end Forest

/-! ## What is below a node -/

open Classical in
/-- The nodes that a node leads to along the lists, itself included. -/
noncomputable def below (s : Store) (n : NodeId) : Finset NodeId :=
  (Finset.range s.nodes.size).filter fun m => Relation.ReflTransGen s.Holds n m

open Classical in
theorem mem_below {n m : NodeId} :
    m ∈ s.below n ↔ m < s.nodes.size ∧ Relation.ReflTransGen s.Holds n m := by
  rw [below, Finset.mem_filter, Finset.mem_range]

open Classical in
theorem card_below_le (s : Store) (n : NodeId) : (s.below n).card ≤ s.nodes.size := by
  refine (Finset.card_filter_le _ _).trans ?_
  rw [Finset.card_range]

theorem card_below_pos (h : s.Acyclic alive) {n : NodeId} (hn : alive n) : 0 < (s.below n).card :=
  Finset.card_pos.mpr ⟨n, mem_below.mpr ⟨h.exist n hn, .refl⟩⟩

open Classical in
/-- One step further there is less to be reached, if no way leads back: the start itself cannot be. -/
theorem card_reached_lt {r : Nat → Nat → Prop} {bound p c : Nat} (hp : p < bound) (hc : r p c)
    (hacyclic : ¬ Relation.TransGen r p p) :
    ((Finset.range bound).filter fun m => Relation.ReflTransGen r c m).card <
      ((Finset.range bound).filter fun m => Relation.ReflTransGen r p m).card := by
  refine Finset.card_lt_card (Finset.ssubset_iff_subset_ne.mpr ⟨fun m hm => ?_, fun heq => ?_⟩)
  · obtain ⟨hlt, hdown⟩ := Finset.mem_filter.mp hm
    exact Finset.mem_filter.mpr ⟨hlt, .head hc hdown⟩
  · have hself : p ∈ (Finset.range bound).filter fun m => Relation.ReflTransGen r c m := by
      rw [heq]
      exact Finset.mem_filter.mpr ⟨Finset.mem_range.mpr hp, .refl⟩
    exact hacyclic (.head' hc (Finset.mem_filter.mp hself).2)

/-- **There is less below a child than below its holder**: the holder itself is not below the child. -/
theorem card_below_lt (h : s.Acyclic alive) {p c : NodeId} (hp : alive p) (hc : s.Holds p c) :
    (s.below c).card < (s.below p).card :=
  card_reached_lt (h.exist p hp) hc (h.acyclic p hp)

/-! ## The top of a tree -/

/-- `r` is where going up from `n` along the lists ends: it leads to `n` and is in no list itself. -/
structure Topmost (s : Store) (alive : NodeId → Prop) (n r : NodeId) : Prop where
  living : alive r
  down : Relation.ReflTransGen s.Holds r n
  top : ∀ p, alive p → ¬ s.Holds p r

/-- **Every living node has a topmost node.** Each step up adds to what is below, which cannot go on
    without end. -/
theorem exists_topmost (h : s.Forest alive) {n : NodeId} (hn : alive n) : ∃ r, s.Topmost alive n r := by
  induction hk : s.nodes.size - (s.below n).card using Nat.strong_induction_on generalizing n with
  | _ k ih =>
      by_cases hup : ∃ p, alive p ∧ s.Holds p n
      · obtain ⟨p, hp, hc⟩ := hup
        have hlt := card_below_lt h.toAcyclic hp hc
        have hle := card_below_le s p
        obtain ⟨r, hr⟩ := ih _ (by omega) hp rfl
        exact ⟨r, hr.living, hr.down.tail hc, hr.top⟩
      · exact ⟨n, hn, .refl, fun p hp hc => hup ⟨p, hp, hc⟩⟩

end Store
end SyntaxTree
