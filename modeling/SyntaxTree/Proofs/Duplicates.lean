import SyntaxTree.Proofs.Cloning

/-!
# `Proofs.Duplicates` — what a clone is like

The nodes of a clone are made in document order, one for each place of the tree that is cloned, and they
take the next places that are free. So they are new and different from each other, also where the tree has
the same node at several places. `Cloned` says what else there is to say of the two trees: they have one
shape, and at each place a node and its duplicate; below the top every new node has its holder for its
parent and its position for its hint.

A clone under construction is a node that has some of its children already (`Filled`). Adding the next one
changes the record of that child and of the node, and no other.
-/

namespace SyntaxTree

/-! ## Trees of one shape -/

namespace Subtree

variable {R R' : NodeId → NodeId → Prop}

mutual

/-- The trees have one shape, and the nodes at the same place are related. -/
def Matches (R : NodeId → NodeId → Prop) : Subtree → Subtree → Prop
  | .node n ts, .node c us => R n c ∧ MatchesAll R ts us

/-- As many trees that match one by one. -/
def MatchesAll (R : NodeId → NodeId → Prop) : List Subtree → List Subtree → Prop
  | [], [] => True
  | t :: ts, u :: us => t.Matches R u ∧ MatchesAll R ts us
  | [], _ :: _ => False
  | _ :: _, [] => False

end

mutual

theorem Matches.mono : {t u : Subtree} → t.Matches R u →
    (∀ n ∈ t.preorder, ∀ c ∈ u.preorder, R n c → R' n c) → t.Matches R' u
  | .node n ts, .node c us, h, hR => by
      rw [Matches] at h ⊢
      refine ⟨hR n (by simp [preorder]) c (by simp [preorder]) h.1, ?_⟩
      exact h.2.mono fun m hm d hd => hR m (by simp [preorder, hm]) d (by simp [preorder, hd])

theorem MatchesAll.mono : {ts us : List Subtree} → MatchesAll R ts us →
    (∀ n ∈ preorderAll ts, ∀ c ∈ preorderAll us, R n c → R' n c) → MatchesAll R' ts us
  | [], [], _, _ => by rw [MatchesAll]; trivial
  | t :: ts, u :: us, h, hR => by
      rw [MatchesAll] at h ⊢
      constructor
      · exact h.1.mono fun n hn c hc => hR n (by simp [preorderAll, hn]) c (by simp [preorderAll, hc])
      · exact h.2.mono fun n hn c hc => hR n (by simp [preorderAll, hn]) c (by simp [preorderAll, hc])
  | [], _ :: _, h, _ => by rw [MatchesAll] at h; exact h.elim
  | _ :: _, [], h, _ => by rw [MatchesAll] at h; exact h.elim

end

mutual

/-- The places of matching trees are related in document order. -/
theorem Matches.forall₂ : {t u : Subtree} → t.Matches R u → List.Forall₂ R t.preorder u.preorder
  | .node n ts, .node c us, h => by
      rw [Matches] at h
      rw [preorder, preorder]
      exact .cons h.1 h.2.forall₂

theorem MatchesAll.forall₂ : {ts us : List Subtree} → MatchesAll R ts us →
    List.Forall₂ R (preorderAll ts) (preorderAll us)
  | [], [], _ => .nil
  | t :: ts, u :: us, h => by
      rw [MatchesAll] at h
      rw [preorderAll, preorderAll]
      exact List.rel_append h.1.forall₂ h.2.forall₂
  | [], _ :: _, h => by rw [MatchesAll] at h; exact h.elim
  | _ :: _, [], h => by rw [MatchesAll] at h; exact h.elim

end

end Subtree

namespace Store

variable {s s' s₀ s₁ : Store} {t u : Subtree} {ts us : List Subtree} {n c p : NodeId}

/-! ## Links -/

/-- From place `b` on, every child has its holder for its parent and its position for its hint. -/
def LinkedFrom (s : Store) (b : NodeId) : Prop :=
  ∀ p, b ≤ p → ∀ (i : Nat) (d : NodeId), (s.children p)[i]? = some (.node d) →
    (s.node d).parent = some (.node p) ∧ (s.node d).hint = .int i

theorem LinkedFrom.extends {b : NodeId} (h : s.LinkedFrom b) (hs : s.Extends s')
    (hnew : s'.LinkedFrom s.nodes.size) : s'.LinkedFrom b := by
  intro p hp i d hd
  by_cases hlt : p < s.nodes.size
  · rw [children, hs.node p hlt] at hd
    obtain ⟨hparent, hhint⟩ := h p hp i d hd
    rw [hs.node d (lt_size_of_parent hparent)]
    exact ⟨hparent, hhint⟩
  · exact hnew p (Nat.le_of_not_lt hlt) i d hd

/-- A node without a parent, and so in no list, may be added to one. -/
theorem LinkedFrom.append {b : NodeId} (h : s.LinkedFrom b) (hp : p < s.nodes.size) (hc : c < s.nodes.size)
    (hne : c ≠ p) (hfree : (s.node c).parent = none) : (s.append p (.node c)).LinkedFrom b := by
  -- the links of the children of before are kept: the new child is not among them
  have hbefore {q i d : Nat} (hq : b ≤ q) (hd : (s.children q)[i]? = some (.node d)) :
      ((s.append p (.node c)).node d).parent = some (.node q) ∧
        ((s.append p (.node c)).node d).hint = .int i := by
    obtain ⟨hparent, hhint⟩ := h q hq i d hd
    have hdc : d ≠ c := by
      rintro rfl
      rw [hfree] at hparent
      cases hparent
    rw [node_append_node s hp hne]
    by_cases hdp : d = p
    · subst hdp
      rw [if_pos rfl]
      exact ⟨hparent, hhint⟩
    · rw [if_neg hdp, if_neg fun heq => hdc heq.1]
      exact ⟨hparent, hhint⟩
  intro q hq i d hd
  by_cases hqp : q = p
  · subst hqp
    rw [children_append_self s _ hp] at hd
    rcases Nat.lt_trichotomy i (s.children q).length with hlt | rfl | hgt
    · rw [List.getElem?_append_left hlt] at hd
      exact hbefore hq hd
    · rw [List.getElem?_append_right (Nat.le_refl _), Nat.sub_self] at hd
      cases hd
      rw [node_append_node s hp hne, if_neg hne, if_pos ⟨rfl, hc⟩]
      exact ⟨rfl, rfl⟩
    · rw [List.getElem?_eq_none] at hd
      · cases hd
      · rw [List.length_append, List.length_singleton]
        omega
  · rw [(attached_append hp hc).others q hqp] at hd
    exact hbefore hq hd

/-! ## Duplicates -/

/-- `c` in `s'` has the payload of `n` in `s`, of which value and attributes are copies; it has a list of
children if `n` has one. -/
structure Duplicate (s s' : Store) (n c : NodeId) : Prop where
  cls : (s'.node c).cls = (s.node n).cls
  type : (s'.node c).type = (s.node n).type
  value : s.Copied (s.node n).value s' (s'.node c).value
  attr : s.Copied (s.node n).attr s' (s'.node c).attr
  nodes : (s'.node c).nodes = none ↔ (s.node n).nodes = none

/-- Links and more objects do not matter. -/
theorem Duplicate.congr (h : s₀.Duplicate s n c) (hobjects : ∀ o, o < s.objects.size → s'.object o = s.object o)
    (hnode : ∃ parent hint, s'.node c = { s.node c with parent, hint }) : s₀.Duplicate s' n c := by
  obtain ⟨parent, hint, hnode⟩ := hnode
  refine ⟨?_, ?_, ?_, ?_, ?_⟩
  · rw [hnode, ← h.cls]
  · rw [hnode, ← h.type]
  · rw [hnode]
    exact h.value.mono hobjects
  · rw [hnode]
    exact h.attr.mono hobjects
  · rw [hnode]
    exact h.nodes

/-- From `s` to `s'` the clone `u` of the tree `t` in `s₀` has been made. -/
structure Cloned (s₀ s s' : Store) (t u : Subtree) : Prop extends Extends s s' where
  count : s'.nodes.size = s.nodes.size + t.size
  preorder : u.preorder = List.range' s.nodes.size t.size
  shows : s'.Shows u
  matched : t.Matches (s₀.Duplicate s') u
  linked : s'.LinkedFrom s.nodes.size
  parent : (s'.node u.root).parent = none
  hint : (s'.node u.root).hint = .int (s'.node u.root).cls.detached

/-- From `s` to `s'` the node `p` got the clones `us` of the trees `ts` in `s₀` for more children. -/
structure Filled (s₀ s s' : Store) (p : NodeId) (ts us : List Subtree) : Prop where
  objects : s.objects.size ≤ s'.objects.size
  object : ∀ o, o < s.objects.size → s'.object o = s.object o
  kept : ∀ m, m < s.nodes.size → m ≠ p → s'.node m = s.node m
  record : ∃ nodes, s'.node p = { s.node p with nodes }
  list : (s'.node p).nodes = none ↔ (s.node p).nodes = none
  children : s'.children p = s.children p ++ us.map fun u => .node u.root
  count : s'.nodes.size = s.nodes.size + Subtree.sizeAll ts
  preorder : Subtree.preorderAll us = List.range' s.nodes.size (Subtree.sizeAll ts)
  shows : ∀ u ∈ us, s'.Shows u
  matched : Subtree.MatchesAll (s₀.Duplicate s') ts us
  linked : ∀ b, s.LinkedFrom b → s'.LinkedFrom b

namespace Cloned

/-- The top takes the place after all nodes of before. -/
theorem root_eq (h : Cloned s₀ s s' t u) : u.root = s.nodes.size := by
  have hpreorder := h.preorder
  cases t with
  | node n branches =>
      rw [Subtree.size, List.range'_succ, Subtree.preorder_eq] at hpreorder
      exact (List.cons.inj hpreorder).1

theorem root_lt (h : Cloned s₀ s s' t u) : u.root < s'.nodes.size := by
  rw [h.root_eq, h.count]
  cases t with
  | node n branches =>
      rw [Subtree.size]
      exact Nat.lt_add_of_pos_right (Nat.succ_pos _)

/-- A node of the clone is new. -/
theorem mem_preorder (h : Cloned s₀ s s' t u) {m : NodeId} :
    m ∈ u.preorder ↔ s.nodes.size ≤ m ∧ m < s'.nodes.size := by
  rw [h.preorder, List.mem_range'_1, h.count]

end Cloned

/-- A new node with its payload whose children have been added is the clone of a tree. -/
theorem Cloned.of_filled {branches : List Subtree} {value attr : Value} (hn : s.node n = s₀.node n)
    (hbud : s.Budding s₁ (cloned (s.node n) value attr))
    (hvalue : s₀.Copied (s₀.node n).value s₁ value) (hattr : s₀.Copied (s₀.node n).attr s₁ attr)
    (h : Filled s₀ s₁ s' s.nodes.size branches us) :
    Cloned s₀ s s' (.node n branches) (.node s.nodes.size us) := by
  obtain ⟨nodes, hrecord⟩ := h.record
  rw [hbud.record] at hrecord
  have hbare : s₁.children s.nodes.size = [] := hbud.sprouted.bare
  refine ⟨⟨?_, fun m hm => ?_, ?_, fun o ho => ?_⟩, ?_, ?_, ?_, ?_, ?_, ?_, ?_⟩
  · rw [h.count, hbud.one]
    omega
  · rw [h.kept m (hbud.one ▸ Nat.lt_succ_of_lt hm) (Nat.ne_of_lt hm), hbud.node m hm]
  · exact Nat.le_trans hbud.objects h.objects
  · rw [h.object o (Nat.lt_of_lt_of_le ho hbud.objects), hbud.object o ho]
  · rw [h.count, hbud.one, Subtree.size]
    omega
  · rw [Subtree.preorder, h.preorder, hbud.one, Subtree.size, List.range'_succ]
  · refine .node ?_ h.shows
    rw [h.children, hbare, List.nil_append]
  · rw [Subtree.Matches]
    refine ⟨⟨?_, ?_, ?_, ?_, ?_⟩, h.matched⟩
    · rw [hrecord, ← hn]
      rfl
    · rw [hrecord, ← hn]
      rfl
    · rw [hrecord]
      exact hvalue.mono h.object
    · rw [hrecord]
      exact hattr.mono h.object
    · rw [h.list, hbud.record, ← hn, cloned]
      exact Option.map_eq_none_iff
  · refine h.linked _ fun p hp i d hd => ?_
    -- the new node is the last one, and it has no children yet
    have hnone : s₁.children p = [] := by
      rcases Nat.eq_or_lt_of_le hp with rfl | hlt
      · exact hbare
      · rw [children, node_of_size_le s₁ (hbud.one ▸ hlt)]
        rfl
    rw [hnone] at hd
    cases hd
  · show (s'.node s.nodes.size).parent = none
    rw [hrecord]
    rfl
  · show (s'.node s.nodes.size).hint = .int (s'.node s.nodes.size).cls.detached
    rw [hrecord]
    rfl

/-- Nothing to add. -/
theorem Filled.nil (s₀ s : Store) (p : NodeId) : Filled s₀ s s p [] [] where
  objects := Nat.le_refl _
  object _ _ := rfl
  kept _ _ _ := rfl
  record := ⟨_, rfl⟩
  list := Iff.rfl
  children := by simp
  count := by simp [Subtree.sizeAll]
  preorder := by simp [Subtree.preorderAll, Subtree.sizeAll]
  shows := by simp
  matched := by rw [Subtree.MatchesAll]; trivial
  linked _ hb := hb

/-- **A clone that is added to a node is one more child of it**: only its own links change by that. -/
theorem Filled.cons (hclone : Cloned s₀ s s₁ t u) (hp : p < s.nodes.size) (hlist : (s.node p).nodes ≠ none)
    (h : Filled s₀ (s₁.append p (.node u.root)) s' p ts us) : Filled s₀ s s' p (t :: ts) (u :: us) := by
  have hne : u.root ≠ p := by
    rw [hclone.root_eq]
    exact Nat.ne_of_gt hp
  have hp₁ : p < s₁.nodes.size := Nat.lt_of_lt_of_le hp hclone.size
  have hsize : (s₁.append p (.node u.root)).nodes.size = s₁.nodes.size := size_append s₁ p _
  have hnode := node_append_node s₁ hp₁ hne
  have hself : s₁.node p = s.node p := hclone.node p hp
  -- the nodes of the clone are as they were made, but for the links of its top
  have hmade {m : NodeId} (hm : m ∈ u.preorder) :
      ∃ parent hint, s'.node m = { s₁.node m with parent, hint } := by
    obtain ⟨hle, hlt⟩ := hclone.mem_preorder.mp hm
    have hmp : m ≠ p := Nat.ne_of_gt (Nat.lt_of_lt_of_le hp hle)
    rw [h.kept m (hsize ▸ hlt) hmp, hnode, if_neg hmp]
    split
    · next hroot => rw [hroot.1]; exact ⟨_, _, rfl⟩
    · exact ⟨_, _, rfl⟩
  have hobject (o : ObjectId) (ho : o < s₁.objects.size) : s'.object o = s₁.object o := h.object o ho
  obtain ⟨nodes, hrecord⟩ := h.record
  rw [hnode, if_pos rfl, hself] at hrecord
  refine ⟨?_, fun o ho => ?_, fun m hm hmp => ?_, ⟨nodes, hrecord⟩, ?_, ?_, ?_, ?_, ?_, ?_, fun b hb => ?_⟩
  · exact Nat.le_trans hclone.objects h.objects
  · rw [hobject o (Nat.lt_of_lt_of_le ho hclone.objects), hclone.object o ho]
  · have hroot : m ≠ u.root := by
      rw [hclone.root_eq]
      exact Nat.ne_of_lt hm
    rw [h.kept m (hsize ▸ Nat.lt_of_lt_of_le hm hclone.size) hmp, hnode, if_neg hmp,
      if_neg fun heq => hroot heq.1, hclone.node m hm]
  · rw [h.list, hnode, if_pos rfl]
    exact ⟨fun hnone => (by cases hnone), fun hnone => absurd hnone hlist⟩
  · rw [h.children, children_append_self s₁ _ hp₁, Store.children, hself, ← Store.children, List.append_assoc]
    rfl
  · rw [h.count, hsize, hclone.count, Subtree.sizeAll]
    omega
  · rw [Subtree.preorderAll, hclone.preorder, h.preorder, hsize, hclone.count, Subtree.sizeAll]
    exact List.range'_append_1
  · intro v hv
    rcases List.mem_cons.mp hv with rfl | hv
    · refine hclone.shows.congr fun m hm => ?_
      obtain ⟨parent, hint, hm⟩ := hmade hm
      rw [Store.children, hm, Store.children]
    · exact h.shows v hv
  · rw [Subtree.MatchesAll]
    exact ⟨hclone.matched.mono fun n _ c hc hdup => hdup.congr hobject (hmade hc), h.matched⟩
  · refine h.linked b (LinkedFrom.append ?_ hp₁ hclone.root_lt hne hclone.parent)
    exact hb.extends hclone.toExtends hclone.linked

/-! ## The clone of a tree -/

mutual

/-- **A clone of a tree whose payload holds no nodes is made in the next places**, whatever else there is. -/
theorem cloneTree_cloned : (t : Subtree) → ∀ {s : Store}, s₀.Extends s → s₀.Shows t →
    s₀.Clonable t.preorder → ∃ u s', cloneTree t s = .ok u.root s' ∧ Cloned s₀ s s' t u
  | .node n branches, s, hs, hshows, hclonable => by
      obtain ⟨hlt, hvalue, hattr⟩ := hclonable n (by simp [Subtree.preorder])
      have hn : s.node n = s₀.node n := hs.node n hlt
      obtain ⟨value, attr, s₁, hpayload, hbud, hvalue', hattr'⟩ :=
        clonePayload_ok (hn ▸ hvalue.extends hs) (hn ▸ hattr.extends hs)
      have hlist : branches ≠ [] → (s₁.node s.nodes.size).nodes ≠ none := by
        intro hne hnone
        rw [hbud.record, hn] at hnone
        exact hne (hshows.branches_eq_nil (Option.map_eq_none_iff.mp hnone))
      obtain ⟨us, s', hinto, hfilled⟩ := cloneInto_filled branches (hs.trans hbud.toExtends)
        hbud.sprouted.lt_size hs.size hlist (fun b hb => hshows.branch hb)
        fun m hm => hclonable m (by simp [Subtree.preorder, hm])
      rw [hn] at hvalue' hattr'
      refine ⟨.node s.nodes.size us, s', ?_,
        .of_filled hn hbud (hvalue'.of_mono hs.object) (hattr'.of_mono hs.object) hfilled⟩
      rw [cloneTree, Run.bind_of_ok hpayload, Run.bind_of_ok hinto]
      rfl

/-- Clones of trees are added to a node that was made after the trees. -/
theorem cloneInto_filled : (ts : List Subtree) → ∀ {s : Store} {p : NodeId}, s₀.Extends s →
    p < s.nodes.size → s₀.nodes.size ≤ p → (ts ≠ [] → (s.node p).nodes ≠ none) → (∀ t ∈ ts, s₀.Shows t) →
    s₀.Clonable (Subtree.preorderAll ts) → ∃ us s', cloneInto p ts s = .ok () s' ∧ Filled s₀ s s' p ts us
  | [], s, p, _, _, _, _, _, _ => by
      refine ⟨[], s, ?_, .nil s₀ s p⟩
      rw [cloneInto]
      rfl
  | t :: ts, s, p, hs, hp, hnew, hlist, hshows, hclonable => by
      rw [Subtree.preorderAll] at hclonable
      obtain ⟨u, s₁, htree, hclone⟩ := cloneTree_cloned t hs (hshows t (List.mem_cons_self ..))
        fun m hm => hclonable m (List.mem_append_left _ hm)
      have hp₁ : p < s₁.nodes.size := Nat.lt_of_lt_of_le hp hclone.size
      have hroot : s₀.nodes.size ≤ u.root := by
        rw [hclone.root_eq]
        exact hs.size
      have hne : u.root ≠ p := by
        rw [hclone.root_eq]
        exact Nat.ne_of_gt hp
      have hlist₁ : ((s₁.append p (.node u.root)).node p).nodes ≠ none := by
        rw [node_append_node s₁ hp₁ hne, if_pos rfl]
        exact fun hnone => (by cases hnone)
      obtain ⟨us, s', hinto, hfilled⟩ := cloneInto_filled ts ((hs.trans hclone.toExtends).append hnew hroot)
        ((size_append s₁ p _).symm ▸ hp₁) hnew (fun _ => hlist₁)
        (fun v hv => hshows v (List.mem_cons_of_mem _ hv))
        fun m hm => hclonable m (List.mem_append_right _ hm)
      refine ⟨u :: us, s', ?_, .cons hclone hp (hlist (List.cons_ne_nil _ _)) hfilled⟩
      rw [cloneInto, Run.bind_of_ok htree, Run.bind_of_ok (push_node s₁ p u.root)]
      exact hinto

end

end Store
end SyntaxTree
