import SyntaxTree.Node.Clone
import SyntaxTree.Proofs.CopiedContents
import SyntaxTree.Proofs.Growing
import SyntaxTree.Proofs.Successor

/-!
# `Proofs.Cloning` — a clone is a new tree

A clone is made from the nodes of a tree one after the other. Each gets a node of its own without parent and
children (`cloned`), then the clones of its branches for children; and it is free until the node above
takes it. As long as the values and the attributes of the tree hold no nodes, nothing else is made, and no
node of before is touched. So a clone never fails, and leaves a forest with one more tree.
-/

namespace SyntaxTree
namespace Store

open Relation

variable {s s' s'' s₀ : Store} {gone : NodeId → Prop}

/-! ## The payload -/

/-- `s'` has one more node than `s`, and that has the record `r`. -/
structure Budding (s s' : Store) (r : NodeRecord) : Prop extends Extends s s' where
  one : s'.nodes.size = s.nodes.size + 1
  record : s'.node s.nodes.size = r

namespace Budding

variable {r : NodeRecord}

/-- A change of the new node is one of its record. -/
theorem updateNode (h : s.Budding s' r) (f : NodeRecord → NodeRecord) :
    s.Budding (s'.updateNode s.nodes.size f) (f r) where
  toExtends := h.toExtends.updateNode (Nat.le_refl _) f
  one := by rw [size_updateNode, h.one]
  record := by
    have hlt : s.nodes.size < s'.nodes.size := h.one ▸ Nat.lt_succ_self _
    rw [node_updateNode_self s' f hlt, h.record]

/-- More objects do not matter. -/
theorem of_objects (h : s.Budding s' r) (hnodes : s''.nodes = s'.nodes) (hs : s'.Extends s'') :
    s.Budding s'' r where
  toExtends := h.toExtends.trans hs
  one := by rw [hnodes, h.one]
  record := by rw [node, hnodes, ← node, h.record]

end Budding

theorem budding_withBlank (s : Store) (cls : NodeClass) :
    s.Budding (s.withBlank cls) (.blank cls (.object s.objects.size)) where
  toExtends := extends_withBlank s cls
  one := size_withBlank s cls
  record := node_withBlank s cls

/-- The record that the clone of a node starts with: it has a list of children if the node has one, but
nothing in it, and it has no parent. -/
def cloned (r : NodeRecord) (value attr : Value) : NodeRecord :=
  ⟨r.cls, r.type, value, r.nodes.map fun _ => [], attr, none, .int r.cls.detached⟩

theorem children_cloned (r : NodeRecord) (value attr : Value) :
    (cloned r value attr).nodes.getD [] = [] := by
  rw [cloned]
  cases r.nodes <;> rfl

theorem proper_cloned (r : NodeRecord) (value attr : Value) : (cloned r value attr).Proper :=
  ⟨⟨_, rfl⟩, fun _ hp => by cases hp⟩

theorem Budding.sprouted {r : NodeRecord} {value attr : Value} (h : s.Budding s' (cloned r value attr)) :
    s.Sprouted s' where
  toExtends := h.toExtends
  one := h.one
  bare := by rw [children, h.record, children_cloned]

/-- **The payload of a clone goes into one new node**, if it holds no nodes itself. -/
theorem clonePayload_ok {n : NodeId} (hvalue : s.Nodeless (s.node n).value)
    (hattr : s.Nodeless (s.node n).attr) :
    ∃ value attr s', clonePayload n s = .ok s.nodes.size s' ∧ s.Budding s' (cloned (s.node n) value attr) ∧
      s.Copied (s.node n).value s' value ∧ s.Copied (s.node n).attr s' attr := by
  have h₁ := budding_withBlank s (s.node n).cls
  have h₂ := h₁.updateNode fun fresh => { fresh with type := (s.node n).type }
  have hvalue₂ := hvalue.extends h₂.toExtends
  obtain ⟨value, s₃, hcopy, hnodes, hextends⟩ := copy_nodeless hvalue₂
  have h₃ := h₂.of_objects hnodes hextends
  have h₄ := h₃.updateNode fun fresh => { fresh with value }
  have hattr₄ := hattr.extends h₄.toExtends
  obtain ⟨attr, s₅, hcopy', hnodes', hextends'⟩ := copy_nodeless hattr₄
  have h₅ := h₄.of_objects hnodes' hextends'
  have h₆ := h₅.updateNode fun fresh => { fresh with attr, nodes := (s.node n).nodes.map fun _ => [] }
  refine ⟨value, attr, _, ?_, h₆, ?_, ?_⟩
  · rw [clonePayload, Run.read_bind, Run.bind_of_ok (blank_eq s _), Run.update_bind, Run.bind_of_ok hcopy,
      Run.update_bind, Run.bind_of_ok hcopy', Run.update_bind]
    rfl
  · exact ((copy_copied hvalue₂ hcopy).of_mono h₂.object).mono hextends'.object
  · exact ((copy_copied hattr₄ hcopy').of_mono h₄.object).mono fun _ _ => rfl

/-! ## The tree -/

/-- The nodes of a tree are in the store, and their values and attributes hold no nodes. -/
def Clonable (s : Store) (ns : List NodeId) : Prop :=
  ∀ n ∈ ns, n < s.nodes.size ∧ s.Nodeless (s.node n).value ∧ s.Nodeless (s.node n).attr

theorem Clonable.extends {ns : List NodeId} (h : s.Clonable ns) (hs : s.Extends s') : s'.Clonable ns := by
  intro n hn
  obtain ⟨hlt, hvalue, hattr⟩ := h n hn
  rw [hs.node n hlt]
  exact ⟨Nat.lt_of_lt_of_le hlt hs.size, hvalue.extends hs, hattr.extends hs⟩

variable {inv : Store → Prop}

mutual

/-- **A clone of a tree is a new tree whose top is free**; nothing of before is changed, and whatever its steps keep is
kept. -/
theorem cloneTree_ok (hinv : Growth gone inv) : (t : Subtree) → ∀ {s : Store}, inv s → s.Clonable t.preorder →
    ∃ c s', cloneTree t s = .ok c s' ∧ s.Extends s' ∧ inv s' ∧ s.nodes.size ≤ c ∧ s'.Free gone c
  | .node n branches, s, h, hclonable => by
      rw [Subtree.preorder] at hclonable
      obtain ⟨-, hvalue, hattr⟩ := hclonable n (List.mem_cons_self ..)
      obtain ⟨_, _, s₁, hpayload, hbud, -, -⟩ := clonePayload_ok hvalue hattr
      obtain ⟨h₁, hp⟩ : inv s₁ ∧ s₁.Free gone s.nodes.size := by
        refine hinv.sprout h hbud.sprouted (hbud.record ▸ proper_cloned _ _ _) fun p hp => ?_
        rw [hbud.record] at hp
        cases hp
      have hbranches : s.Clonable (Subtree.preorderAll branches) :=
        fun m hm => hclonable m (List.mem_cons_of_mem _ hm)
      obtain ⟨s₂, hinto, hextends, h₂, hfree⟩ := cloneInto_ok hinv branches hbud.toExtends h₁
        (Nat.le_refl _) hp hbranches
      refine ⟨s.nodes.size, s₂, ?_, hextends, h₂, Nat.le_refl _, hfree⟩
      rw [cloneTree, Run.bind_of_ok hpayload, Run.bind_of_ok hinto]
      rfl

/-- The clones of branches are added to a free node that was made after the branches. -/
theorem cloneInto_ok {p : NodeId} (hinv : Growth gone inv) : (ts : List Subtree) → ∀ {s₀ s : Store}, s₀.Extends s →
    inv s → s₀.nodes.size ≤ p → s.Free gone p → s₀.Clonable (Subtree.preorderAll ts) →
    ∃ s', cloneInto p ts s = .ok () s' ∧ s₀.Extends s' ∧ inv s' ∧ s'.Free gone p
  | [], s₀, s, hs, h, _, hp, _ => by
      refine ⟨s, ?_, hs, h, hp⟩
      rw [cloneInto]
      rfl
  | t :: ts, s₀, s, hs, h, hsize, hp, hclonable => by
      rw [Subtree.preorderAll] at hclonable
      have hfirst : s₀.Clonable t.preorder := fun m hm => hclonable m (List.mem_append_left _ hm)
      have hrest : s₀.Clonable (Subtree.preorderAll ts) :=
        fun m hm => hclonable m (List.mem_append_right _ hm)
      obtain ⟨c, s₁, htree, hs₁, h₁, hc, hfree⟩ := cloneTree_ok hinv t h (hfirst.extends hs)
      have hp₁ : s₁.Free gone p := hinv.free hp h h₁ hs₁
      have hne : c ≠ p := Nat.ne_of_gt (Nat.lt_of_lt_of_le hp.living.1 hc)
      have h₂ : inv (s₁.append p (.node c)) := hinv.append h₁ hp₁ hfree hne
      have hp₂ : (s₁.append p (.node c)).Free gone p :=
        hp₁.attached (attached_append hp₁.living.1 hfree.living.1) hne.symm
      have hs₂ : s₀.Extends (s₁.append p (.node c)) :=
        (hs.trans hs₁).append hsize (Nat.le_trans hs.size hc)
      obtain ⟨s', hinto, hextends, h', hp'⟩ := cloneInto_ok hinv ts hs₂ h₂ hsize hp₂ hrest
      refine ⟨s', ?_, hextends, h', hp'⟩
      rw [cloneInto, Run.bind_of_ok htree, Run.bind_of_ok (push_node s₁ p c)]
      exact hinto

end

/-- A tree that a living node shows consists of living nodes. -/
theorem Shows.living (h : s.WellKept gone) {t : Subtree} (ht : s.Shows t) (hroot : s.Living gone t.root)
    {n : NodeId} (hn : n ∈ t.preorder) : s.Living gone n :=
  h.forest.alive_of_below hroot (ht.down hn)

/-- **Cloning a living node never fails**, and leaves a forest with all trees of before, if no value and no
    attribute of a living node holds a node. -/
theorem clone_ok (h : s.WellKept gone) {n : NodeId} (hn : s.Living gone n)
    (hvalues : ∀ m, s.Living gone m → s.Nodeless (s.node m).value ∧ s.Nodeless (s.node m).attr) :
    ∃ c s', clone n s = .ok c s' ∧ s.Extends s' ∧ s'.WellKept gone ∧ s'.Free gone c := by
  obtain ⟨t, htree, rfl, hshows⟩ := subtree_of_forest h.forest "clone" hn
  have hclonable : s.Clonable t.preorder := by
    intro m hm
    have hliving := hshows.living h hn hm
    exact ⟨hliving.1, hvalues m hliving⟩
  obtain ⟨c, s', hclone, hextends, h', -, hfree⟩ := cloneTree_ok (growth_wellKept gone) t h hclonable
  refine ⟨c, s', ?_, hextends, h', hfree⟩
  rw [clone, Run.bind_of_ok (Run.check_of_ok htree)]
  exact hclone

end Store
end SyntaxTree
