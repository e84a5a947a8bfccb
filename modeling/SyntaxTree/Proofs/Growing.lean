import SyntaxTree.Proofs.Construction
import SyntaxTree.Proofs.Grafting

/-!
# `Proofs.Growing` — forests that get new nodes

A store is `WellKept` if the nodes that are still in use form a forest and every record is proper. A new
node without children keeps it so (`WellKept.sprout`), whatever living node it calls its parent; and so does
putting a free node into the list of another one (`WellKept.graft`). Whatever makes nodes and gives them
children does so in these two steps.
-/

namespace SyntaxTree
namespace Store

open Relation

variable {s s' s'' s₀ : Store} {gone : NodeId → Prop}

/-- The node has been made and is still in use. -/
def Living (s : Store) (gone : NodeId → Prop) (n : NodeId) : Prop := n < s.nodes.size ∧ ¬ gone n

/-- The living nodes form a forest, and every record is proper. -/
structure WellKept (s : Store) (gone : NodeId → Prop) : Prop where
  forest : s.Forest (s.Living gone)
  proper : ∀ n, (s.node n).Proper
  made : ∀ n, gone n → n < s.nodes.size

/-- The node is living and in the list of no living node. -/
structure Free (s : Store) (gone : NodeId → Prop) (n : NodeId) : Prop where
  living : s.Living gone n
  unheld : ∀ p, s.Living gone p → ¬ s.Holds p n

theorem Living.mono {n : NodeId} (h : s.Living gone n) (hsize : s.nodes.size ≤ s'.nodes.size) :
    s'.Living gone n :=
  ⟨Nat.lt_of_lt_of_le h.1 hsize, h.2⟩

theorem living_of_size {n : NodeId} (hsize : s'.nodes.size = s.nodes.size) :
    s'.Living gone n ↔ s.Living gone n := by
  rw [Living, Living, hsize]

theorem living_eq_of_size (hsize : s'.nodes.size = s.nodes.size) : s'.Living gone = s.Living gone :=
  funext fun _ => propext (living_of_size hsize)

/-- Nothing but the node itself leads to a free node. -/
theorem Free.not_down {p c : NodeId} (hp : s.Free gone p) (h : s.WellKept gone) (hc : s.Living gone c)
    (hne : c ≠ p) : ¬ ReflTransGen s.Holds c p := by
  intro hdown
  rcases hdown.cases_tail with heq | ⟨q, hq, hqp⟩
  · exact hne heq.symm
  · exact hp.unheld q (h.forest.alive_of_below hc hq) hqp

/-! ## A new node -/

/-- `s'` has one more node than `s`, which has no children. -/
structure Sprouted (s s' : Store) : Prop extends Extends s s' where
  one : s'.nodes.size = s.nodes.size + 1
  bare : s'.children s.nodes.size = []

namespace Sprouted

theorem lt_size (h : s.Sprouted s') : s.nodes.size < s'.nodes.size := by
  rw [h.one]
  exact Nat.lt_succ_self _

theorem children_of_lt (h : s.Sprouted s') {n : NodeId} (hn : n < s.nodes.size) :
    s'.children n = s.children n := by
  rw [children, h.node n hn, children]

/-- The links are those of before. -/
theorem holds (h : s.Sprouted s') {p c : NodeId} (hc : s'.Holds p c) :
    p < s.nodes.size ∧ s.Holds p c := by
  rcases Nat.lt_trichotomy p s.nodes.size with hlt | rfl | hgt
  · rw [Holds, h.children_of_lt hlt] at hc
    exact ⟨hlt, hc⟩
  · rw [Holds, h.bare] at hc
    cases hc
  · have hout : s'.nodes.size ≤ p := h.one ▸ hgt
    rw [Holds, children, node_of_size_le _ hout] at hc
    cases hc

/-- Of the living nodes only the new one was not living before. -/
theorem living_iff (h : s.Sprouted s') (hnew : ¬ gone s.nodes.size) {n : NodeId} :
    s'.Living gone n ↔ s.Living gone n ∨ n = s.nodes.size := by
  rw [Living, h.one, Living]
  constructor
  · rintro ⟨hlt, hn⟩
    rcases Nat.lt_succ_iff_lt_or_eq.mp hlt with hlt | heq
    · exact Or.inl ⟨hlt, hn⟩
    · exact Or.inr heq
  · rintro (⟨hlt, hn⟩ | rfl)
    · exact ⟨Nat.lt_succ_of_lt hlt, hn⟩
    · exact ⟨Nat.lt_succ_self _, hnew⟩

/-- If every record was proper and the new one is, every record is. -/
theorem proper (h : s.Sprouted s') (hs : ∀ n, (s.node n).Proper) (hnew : (s'.node s.nodes.size).Proper) (n : NodeId) :
    (s'.node n).Proper := by
  rcases Nat.lt_trichotomy n s.nodes.size with hlt | rfl | hgt
  · rw [h.node n hlt]
    exact hs n
  · exact hnew
  · rw [node_of_size_le _ (h.one ▸ hgt)]
    exact ⟨⟨_, rfl⟩, fun p hp => by cases hp⟩

/-- A new node is in no list, if the lists hold nodes that have been made. -/
theorem free_of (h : s.Sprouted s') (hnew : ¬ gone s.nodes.size)
    (hlt : ∀ p c, s.Living gone p → s.Holds p c → c < s.nodes.size) : s'.Free gone s.nodes.size where
  living := ⟨h.lt_size, hnew⟩
  unheld p hp hc := by
    obtain ⟨hold, hc⟩ := h.holds hc
    exact Nat.lt_irrefl _ (hlt p _ ⟨hold, hp.2⟩ hc)

end Sprouted

/-- The place of a new node is not that of a node that is gone. -/
theorem WellKept.not_gone (h : s.WellKept gone) {n : NodeId} (hn : s.nodes.size ≤ n) : ¬ gone n :=
  fun hgone => Nat.not_lt_of_le hn (h.made n hgone)

theorem WellKept.holds_lt (h : s.WellKept gone) {p c : NodeId} (hp : s.Living gone p)
    (hc : s.Holds p c) : c < s.nodes.size := (h.forest.alive_of_holds hp hc).1

/-- **A forest with one more node is a forest**, whatever living node the new one has for its parent. -/
theorem WellKept.sprout (h : s.WellKept gone) (hs : s.Sprouted s')
    (hproper : (s'.node s.nodes.size).Proper)
    (hparent : ∀ p, (s'.node s.nodes.size).parent = some (.node p) → s'.Living gone p) :
    s'.WellKept gone := by
  have hliving {n : NodeId} : s'.Living gone n ↔ s.Living gone n ∨ n = s.nodes.size :=
    hs.living_iff (h.not_gone (Nat.le_refl _))
  have hbefore {p c : NodeId} (hp : s'.Living gone p) (hc : s'.Holds p c) :
      s.Living gone p ∧ s.Holds p c := ⟨⟨(hs.holds hc).1, hp.2⟩, (hs.holds hc).2⟩
  refine ⟨.of_lists (fun n hn => hn.1) (fun p v hp hv => ?_) (fun p hp => ?_) (fun p c hp hc => ?_)
    (fun n hn hcycle => ?_) fun n p hn hp => ?_, fun n => ?_, fun n hn => ?_⟩
  · -- what is in a list is a living node
    rcases hliving.mp hp with hold | rfl
    · rw [hs.children_of_lt hold.1] at hv
      obtain ⟨c, rfl, hc⟩ := h.forest.child p v hold hv
      exact ⟨c, rfl, hc.mono hs.size⟩
    · rw [hs.bare] at hv
      cases hv
  · -- no list holds anything twice
    rcases hliving.mp hp with hold | rfl
    · rw [hs.children_of_lt hold.1]
      exact h.forest.children_nodup hold
    · rw [hs.bare]
      exact List.nodup_nil
  · -- parents agree with the lists
    obtain ⟨hold, hc⟩ := hbefore hp hc
    rw [hs.node c (h.holds_lt hold hc)]
    exact h.forest.parent p c hold hc
  · -- the way round has a first link, which the new node has not
    obtain ⟨c, hc, -⟩ := TransGen.head'_iff.mp hcycle
    have hcycle' : TransGen s.Holds n n := hcycle.lift id fun p c hc => (hs.holds hc).2
    exact h.forest.acyclic n (hbefore hn hc).1 hcycle'
  · -- parents are living nodes
    rcases hliving.mp hn with hold | rfl
    · rw [hs.node n hold.1] at hp
      exact (h.forest.above n p hold hp).mono hs.size
    · exact hparent p hp
  · exact hs.proper h.proper hproper n
  · exact Nat.lt_of_lt_of_le (h.made n hn) hs.size

/-- The new node is free. -/
theorem Sprouted.free (hs : s.Sprouted s') (h : s.WellKept gone) : s'.Free gone s.nodes.size :=
  hs.free_of (h.not_gone (Nat.le_refl _)) fun _ _ => h.holds_lt

/-- A free node stays free when there are more nodes: what would hold it now would be its parent, and that
was living before. -/
theorem Free.extends_of {n : NodeId} (hn : s.Free gone n) (hs : s.Extends s')
    (hparent : ∀ p, s'.Living gone p → s'.Holds p n → (s'.node n).parent = some (.node p))
    (habove : ∀ p, (s.node n).parent = some (.node p) → s.Living gone p) : s'.Free gone n where
  living := hn.living.mono hs.size
  unheld p hp hc := by
    have hlink := hparent p hp hc
    rw [hs.node n hn.living.1] at hlink
    have hold := habove p hlink
    rw [Holds, children, hs.node p hold.1] at hc
    exact hn.unheld p hold hc

theorem Free.extends {n : NodeId} (hn : s.Free gone n) (h : s.WellKept gone) (h' : s'.WellKept gone)
    (hs : s.Extends s') : s'.Free gone n :=
  hn.extends_of hs (fun p hp hc => h'.forest.parent p n hp hc) fun p hp => h.forest.above n p hn.living hp

/-! ## Grafting -/

theorem WellKept.graft (h : s.WellKept gone) {p c : NodeId} (hp : s.Living gone p) (hc : s.Free gone c)
    (hdown : ¬ ReflTransGen s.Holds c p) (hattached : s.Attached s' p c)
    (hproper : ∀ n, (s'.node n).Proper) : s'.WellKept gone := by
  refine ⟨?_, hproper, fun n hn => ?_⟩
  · rw [living_eq_of_size hattached.size]
    exact h.forest.attach hp hc.living hc.unheld hdown hattached
  · rw [hattached.size]
    exact h.made n hn

/-- The other nodes stay free. -/
theorem Free.attached {n p c : NodeId} (hn : s.Free gone n) (hattached : s.Attached s' p c) (hne : n ≠ c) :
    s'.Free gone n where
  living := (living_of_size hattached.size).mpr hn.living
  unheld q hq hc := by
    rcases hattached.holds_iff.mp hc with hc | ⟨-, heq⟩
    · exact hn.unheld q ((living_of_size hattached.size).mp hq) hc
    · exact hne heq

theorem proper_link (hs : ∀ m, (s.node m).Proper) (p c : NodeId) (i : Int) (nodes : Option (List Value))
    (m : NodeId) :
    ((((s.setParent c (some (.node p))).setHint c (.int i)).setNodes p nodes).node m).Proper := by
  refine proper_updateNode (proper_updateNode (proper_updateNode hs c ?_) c ?_) p ?_ m
  · exact fun r hr => ⟨hr.hint_int, fun q hq => ⟨p, by cases hq; rfl⟩⟩
  · exact fun r hr => ⟨⟨i, rfl⟩, hr.parent_node⟩
  · exact fun r hr => ⟨hr.hint_int, hr.parent_node⟩

theorem WellKept.append (h : s.WellKept gone) {p c : NodeId} (hp : s.Living gone p) (hc : s.Free gone c)
    (hdown : ¬ ReflTransGen s.Holds c p) : (s.append p (.node c)).WellKept gone :=
  h.graft hp hc hdown (attached_append hp.1 hc.living.1) (proper_link h.proper p c _ _)

theorem WellKept.prepend (h : s.WellKept gone) {p c : NodeId} (hp : s.Living gone p) (hc : s.Free gone c)
    (hdown : ¬ ReflTransGen s.Holds c p) : (s.prepend p (.node c)).WellKept gone :=
  h.graft hp hc hdown (attached_prepend hp.1 hc.living.1) (proper_link h.proper p c _ _)

/-! ## Parents of free nodes -/

theorem size_setParent (s : Store) (n : NodeId) (parent : Option Value) :
    (s.setParent n parent).nodes.size = s.nodes.size := by
  rw [setParent, size_updateNode]

theorem holds_setParent {n p c : NodeId} {parent : Option Value} : (s.setParent n parent).Holds p c ↔ s.Holds p c := by
  rw [Holds, children_setParent, Holds]

/-- A parent leaves every node in the lists in which it is. -/
theorem Free.setParent {n m : NodeId} (hm : s.Free gone m) (parent : Option Value) :
    (s.setParent n parent).Free gone m where
  living := (living_of_size (size_setParent s n parent)).mpr hm.living
  unheld p hp hc := hm.unheld p ((living_of_size (size_setParent s n parent)).mp hp) (holds_setParent.mp hc)

theorem proper_setParent (hs : ∀ m, (s.node m).Proper) (n p m : NodeId) :
    ((s.setParent n (some (.node p))).node m).Proper := by
  unfold Store.setParent
  apply proper_updateNode hs
  intro r hr
  refine ⟨hr.hint_int, fun q hq => ⟨p, ?_⟩⟩
  cases hq
  rfl

/-- The parent of a node is living, if the one that was set is and all others were. -/
theorem above_setParent {n p m q : NodeId} (habove : (s.node m).parent = some (.node q) → s.Living gone q)
    (hp : s.Living gone p) (hn : n < s.nodes.size)
    (hq : ((s.setParent n (some (.node p))).node m).parent = some (.node q)) : s.Living gone q := by
  by_cases hmn : m = n
  · subst hmn
    rw [node_setParent_self s _ hn] at hq
    cases hq
    exact hp
  · rw [node_setParent_of_ne s _ hmn] at hq
    exact habove hq

/-- As long as a node is in no list, its parent may be any living node. -/
theorem WellKept.setParent (h : s.WellKept gone) {n p : NodeId} (hn : s.Free gone n) (hp : s.Living gone p) :
    (s.setParent n (some (.node p))).WellKept gone := by
  have hsize := size_setParent s n (some (.node p))
  refine ⟨?_, proper_setParent h.proper n p, fun m hm => ?_⟩
  · rw [living_eq_of_size hsize]
    refine h.forest.shrink (fun _ hm => hm) (Nat.le_of_eq hsize.symm) (fun q _ => ?_) (fun q c hq hc => ?_)
      (fun q c hq hc => ?_) fun m q hm hq => ?_
    · rw [children_setParent]
    · exact h.forest.alive_of_holds hq (holds_setParent.mp hc)
    · -- no child is the node whose parent is set
      have hne : c ≠ n := by
        rintro rfl
        exact hn.unheld q hq (holds_setParent.mp hc)
      rw [node_setParent_of_ne s _ hne]
    · exact above_setParent (h.forest.above m q hm) hp hn.living.1 hq
  · rw [hsize]
    exact h.made m hm

/-! ## Whatever grows alike -/

/-- What is kept by making a new node without children, by putting one free node under another one, and by setting
the parent of a free node. Nodes are made, cloned and filled in these steps only. -/
structure Growth (gone : NodeId → Prop) (inv : Store → Prop) : Prop where
  sprout {s s' : Store} : inv s → s.Sprouted s' → (s'.node s.nodes.size).Proper →
    (∀ p, (s'.node s.nodes.size).parent = some (.node p) → s'.Living gone p) → inv s' ∧ s'.Free gone s.nodes.size
  free {s s' : Store} {n : NodeId} : s.Free gone n → inv s → inv s' → s.Extends s' → s'.Free gone n
  append {s : Store} {p c : NodeId} : inv s → s.Free gone p → s.Free gone c → c ≠ p → inv (s.append p (.node c))
  setParent {s : Store} {n p : NodeId} : inv s → s.Free gone n → s.Living gone p → inv (s.setParent n (some (.node p)))

/-- Forests grow in these steps. -/
theorem growth_wellKept (gone : NodeId → Prop) : Growth gone fun s => s.WellKept gone where
  sprout h hs hproper hparent := ⟨h.sprout hs hproper hparent, hs.free h⟩
  free hn h h' hs := hn.extends h h' hs
  append h hp hc hne := h.append hp.living hc (hp.not_down h hc.living hne)
  setParent h hn hp := h.setParent hn hp

/-- Grafting one new node onto another changes nothing of what was there before both. -/
theorem Extends.append (h : s₀.Extends s) {p c : NodeId} (hp : s₀.nodes.size ≤ p) (hc : s₀.nodes.size ≤ c) :
    s₀.Extends (s.append p (.node c)) :=
  ((h.updateNode hc _).updateNode hc _).updateNode hp _

end Store
end SyntaxTree
