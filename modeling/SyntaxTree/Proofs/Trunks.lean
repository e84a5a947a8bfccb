import SyntaxTree.Proofs.MirroredCopies

/-!
# `Proofs.Trunks` — what a clone is made of

The nodes of a clone are of two kinds. Those that stand for the nodes of the tree are its trunk: each of them
is made empty, gets images of value and attributes, and then its children one by one, which are linked to it
as they are added. Everything else is made by deep copies of values and attributes, nodes among it, and is
never touched again. So the trunk is a tree in every respect, and whatever hangs on it mirrors the original,
parents included (`clone_trunk`).
-/

namespace SyntaxTree
namespace Store

open Relation

variable {s₀ s s' u u' : Store} {v w : Value} {n m c d p : NodeId} {new new' : Value → Prop} {r : NodeRecord}

/-! ## Counterparts -/

/-- Some relation between old things and new ones that mirror them relates the two. -/
def Counterpart (s u : Store) (new : Value → Prop) (v w : Value) : Prop := ∃ R, Reflects s u new R ∧ R v w

/-- The relation of all counterparts is such a relation itself. -/
theorem reflects_counterpart (s u : Store) (new : Value → Prop) : Reflects s u new (s.Counterpart u new) where
  made v w := by
    rintro ⟨R, hR, hvw⟩
    exact hR.made v w hvw
  mirrored v w := by
    rintro ⟨R, hR, hvw⟩
    exact (hR.mirrored v w hvw).mono (Unchanged.refl u w) fun x y hxy => ⟨R, hR, hxy⟩

/-- The value is an image of the other one. -/
abbrev StandsFor (s u : Store) (new : Value → Prop) (w v : Value) : Prop := s.Image (s.Counterpart u new) v w

/-- What is done elsewhere does not matter for images. -/
theorem StandsFor.mono (h : s.StandsFor u new w v) (hsame : ∀ x, new x → u.Unchanged u' x)
    (hnew : ∀ x, new x → new' x) : s.StandsFor u' new' w v := by
  refine Image.mono h fun v w hvw => ?_
  obtain ⟨R, hR, hvw⟩ := hvw
  refine ⟨R, ⟨fun x y hxy => ?_, fun x y hxy => ?_⟩, hvw⟩
  · exact ⟨(hR.made x y hxy).1, hnew y (hR.made x y hxy).2⟩
  · exact (hR.mirrored x y hxy).mono (hsame y (hR.made x y hxy).2) fun _ _ => id

/-! ## The payload -/

/-- `s'` has grown from `s`, and the first of its new nodes has the record `r`. -/
structure Budded (s s' : Store) (r : NodeRecord) : Prop extends Extends s s' where
  lt : s.nodes.size < s'.nodes.size
  record : s'.node s.nodes.size = r

theorem Budded.updateNode (h : s.Budded s' r) (f : NodeRecord → NodeRecord) :
    s.Budded (s'.updateNode s.nodes.size f) (f r) where
  toExtends := h.toExtends.updateNode (Nat.le_refl _) f
  lt := by
    rw [size_updateNode]
    exact h.lt
  record := by rw [node_updateNode_self s' f h.lt, h.record]

theorem Budded.extends (h : s.Budded s' r) (hs : s'.Extends u) : s.Budded u r where
  toExtends := h.toExtends.trans hs
  lt := Nat.lt_of_lt_of_le h.lt hs.size
  record := by rw [hs.node _ h.lt, h.record]

/-- What was made from `s` to `u`. -/
def MadeSince (s u : Store) (v : Value) : Prop := ¬ s.Has v ∧ u.Has v

/-- What was made from `s` to `u`, but for the first node. -/
abbrev MadeBeside (s u : Store) (v : Value) : Prop := s.MadeSince u v ∧ v ≠ .node s.nodes.size

/-- **The copy of a value goes into the new node.** It stands for the value, and nothing else is changed. -/
theorem Budded.copy_mirrored (hclosed : s₀.Closed) (hgrounded : s₀.Grounded) (hs : s₀.Extends s)
    (h : s.Budded s' r) (hv : s₀.Known v) (set : Value → NodeRecord → NodeRecord) :
    ∃ w t, copy v s' = .ok w t ∧ s.Budded (t.updateNode s.nodes.size (set w)) (set w r) ∧
      s₀.StandsFor (t.updateNode s.nodes.size (set w))
        (s.MadeBeside (t.updateNode s.nodes.size (set w))) w v ∧
      ∀ x, s'.Has x → (t.updateNode s.nodes.size (set w)).Has x ∧
        (x ≠ .node s.nodes.size → s'.Unchanged (t.updateNode s.nodes.size (set w)) x) := by
  obtain ⟨w, t, R, hcopy, hextends, hR, hw⟩ :=
    Store.copy_mirrored hclosed hgrounded (hs.trans h.toExtends) hv
  refine ⟨w, t, hcopy, (h.extends hextends).updateNode _, ?_, fun x hx => ⟨?_, fun hne => ?_⟩⟩
  · have hbeside {x : Value} (hnot : ¬ s'.Has x) : ¬ s.Has x ∧ x ≠ .node s.nodes.size :=
      ⟨fun hold => hnot (h.toExtends.has hold), fun heq => hnot (heq ▸ h.lt)⟩
    have hstands : s₀.StandsFor t (fun x => ¬ s'.Has x ∧ t.Has x) w v := hw.mono fun x y hxy => ⟨R, hR, hxy⟩
    refine hstands.mono (fun x hx => unchanged_updateNode _ _ (hbeside hx.1).2) fun x hx => ?_
    exact ⟨⟨(hbeside hx.1).1, (has_updateNode _).mpr hx.2⟩, (hbeside hx.1).2⟩
  · exact (has_updateNode _).mpr (hextends.has hx)
  · exact (hextends.unchanged hx).trans (unchanged_updateNode _ _ hne)

/-- **The payload of a clone stands for that of the original.** -/
theorem clonePayload_mirrored (hclosed : s₀.Closed) (hgrounded : s₀.Grounded) (hs : s₀.Extends s)
    (hn : n < s₀.nodes.size) : ∃ value attr u, clonePayload n s = .ok s.nodes.size u ∧
      s.Budded u (cloned (s₀.node n) value attr) ∧ s₀.StandsFor u (s.MadeBeside u) value (s₀.node n).value ∧
      s₀.StandsFor u (s.MadeBeside u) attr (s₀.node n).attr := by
  have hsame : s.node n = s₀.node n := hs.node n hn
  have hblank : s.Budded (s.withBlank (s₀.node n).cls) (.blank (s₀.node n).cls (.object s.objects.size)) :=
    ⟨extends_withBlank s _, by rw [size_withBlank]; exact Nat.lt_succ_self _, node_withBlank s _⟩
  have htyped := hblank.updateNode fun fresh => { fresh with type := (s₀.node n).type }
  obtain ⟨value, t, hcopy, hvalued, hvalue, -⟩ := htyped.copy_mirrored hclosed hgrounded hs
    (hclosed.node n).value fun value fresh => { fresh with value }
  obtain ⟨attr, t', hcopy', hfilled, hattr, hkept⟩ := hvalued.copy_mirrored hclosed hgrounded hs
    (hclosed.node n).attr fun attr fresh => { fresh with attr, nodes := (s₀.node n).nodes.map fun _ => [] }
  refine ⟨value, attr, _, ?_, hfilled, ?_, hattr⟩
  · rw [clonePayload, Run.read_bind, hsame, Run.bind_of_ok (blank_eq s _), Run.update_bind, Run.bind_of_ok hcopy,
      Run.update_bind, Run.bind_of_ok hcopy', Run.update_bind]
    rfl
  · exact hvalue.mono (fun x hx => (hkept x hx.1.2).2 hx.2) fun x hx => ⟨⟨hx.1.1, (hkept x hx.1.2).1⟩, hx.2⟩

/-! ## The trunk -/

variable {stem stem' : NodeId → NodeId → Prop} {hanging hanging' : Value → Prop} {ns ns' tops tops' : List NodeId}

/-- A child of `d` is in the trunk, stands there for the child `v` of the original, and is linked to `d`. -/
def Branches (u : Store) (stem : NodeId → NodeId → Prop) (d : NodeId) (v w : Value) : Prop :=
  ∃ m e, v = .node m ∧ w = .node e ∧ stem m e ∧ (u.node e).parent = some (.node d)

theorem Branches.mono (h : u.Branches stem d v w) (hstem : ∀ m e, stem m e → stem' m e) : u.Branches stem' d v w := by
  obtain ⟨m, e, hv, hw, hstands, hparent⟩ := h
  exact ⟨m, e, hv, hw, hstem m e hstands, hparent⟩

/-- From `s` to `u` the nodes `ns` of `s₀` have got nodes in a trunk, with the `tops` of it. Payloads are
made of what has been hung on the trunk. -/
structure Trunk (s₀ s u : Store) (ns tops : List NodeId) (stem : NodeId → NodeId → Prop)
    (hanging : Value → Prop) : Prop where
  listed : ∀ m d, stem m d → m ∈ ns
  made : ∀ m d, stem m d → s.MadeSince u (.node d)
  hung : ∀ x, hanging x → s.MadeSince u x ∧ ∀ m d, stem m d → x ≠ .node d
  value : ∀ m d, stem m d → s₀.StandsFor u hanging (u.node d).value (s₀.node m).value
  attr : ∀ m d, stem m d → s₀.StandsFor u hanging (u.node d).attr (s₀.node m).attr
  children : ∀ m d, stem m d → List.Forall₂ (u.Branches stem d) (s₀.children m) (u.children d)
  parent : ∀ m d, stem m d → d ∈ tops ∨ ∃ k p, stem k p ∧ (u.node d).parent = some (.node p)

namespace Trunk

/-- The top may be linked, and things elsewhere may be changed. -/
theorem relink (h : Trunk s₀ s u ns [c] stem hanging) (hstem : stem n c) (hfree : (u.node c).parent = none)
    (hkept : ∀ x, s.MadeSince u x → u'.Has x ∧ (x ≠ .node c → u.Unchanged u' x))
    (htop : ∃ parent hint, u'.node c = { u.node c with parent, hint }) :
    Trunk s₀ s u' ns [c] stem hanging := by
  have hlinked {m d : NodeId} (hd : stem m d) : ∃ parent hint, u'.node d = { u.node d with parent, hint } := by
    by_cases hdc : d = c
    · rw [hdc]
      exact htop
    · exact ⟨_, _, (hkept _ (h.made m d hd)).2 fun heq => hdc (Value.node.inj heq)⟩
  -- what is linked already is not the top
  have hparent {m d p : NodeId} (hd : stem m d) (hp : (u.node d).parent = some (.node p)) :
      (u'.node d).parent = some (.node p) := by
    have hdc : d ≠ c := fun heq => by
      rw [heq, hfree] at hp
      cases hp
    have hsame : u'.node d = u.node d := (hkept _ (h.made m d hd)).2 fun heq => hdc (Value.node.inj heq)
    rw [hsame, hp]
  have hhung (x : Value) (hx : hanging x) : u.Unchanged u' x :=
    (hkept x (h.hung x hx).1).2 ((h.hung x hx).2 n c hstem)
  refine ⟨h.listed, fun m d hd => ?_, fun x hx => ?_, fun m d hd => ?_, fun m d hd => ?_, fun m d hd => ?_,
    fun m d hd => ?_⟩
  · exact ⟨(h.made m d hd).1, (hkept _ (h.made m d hd)).1⟩
  · exact ⟨⟨(h.hung x hx).1.1, (hkept x (h.hung x hx).1).1⟩, (h.hung x hx).2⟩
  · obtain ⟨parent, hint, hsame⟩ := hlinked hd
    rw [hsame]
    exact (h.value m d hd).mono hhung fun _ => id
  · obtain ⟨parent, hint, hsame⟩ := hlinked hd
    rw [hsame]
    exact (h.attr m d hd).mono hhung fun _ => id
  · obtain ⟨parent, hint, hsame⟩ := hlinked hd
    have hlist : u'.children d = u.children d := by rw [Store.children, hsame, Store.children]
    rw [hlist]
    refine (h.children m d hd).imp fun v w hvw => ?_
    obtain ⟨k, e, hv, hw, he, hde⟩ := hvw
    exact ⟨k, e, hv, hw, he, hparent he hde⟩
  · exact (h.parent m d hd).imp_right fun ⟨k, p, hp, hdp⟩ => ⟨k, p, hp, hparent hd hdp⟩

/-- What was made of two trunks one after the other is one, with the tops of both. -/
theorem union (h : Trunk s₀ s u ns tops stem hanging) (h' : Trunk s₀ s' u ns' tops' stem' hanging')
    (hs : ∀ x, s.Has x → s'.Has x) (hstem : ∀ m d, stem m d → s'.Has (.node d))
    (hbefore : ∀ x, hanging x → s'.Has x) :
    Trunk s₀ s u (ns ++ ns') (tops ++ tops') (fun m d => stem m d ∨ stem' m d)
      fun x => hanging x ∨ hanging' x where
  listed m d := by
    rintro (hd | hd)
    · exact List.mem_append_left _ (h.listed m d hd)
    · exact List.mem_append_right _ (h'.listed m d hd)
  made m d := by
    rintro (hd | hd)
    · exact h.made m d hd
    · exact ⟨fun hold => (h'.made m d hd).1 (hs _ hold), (h'.made m d hd).2⟩
  hung x := by
    rintro (hx | hx)
    · refine ⟨(h.hung x hx).1, fun m d hd heq => ?_⟩
      rcases hd with hd | hd
      · exact (h.hung x hx).2 m d hd heq
      · exact (h'.made m d hd).1 (heq ▸ hbefore x hx)
    · obtain ⟨⟨hnot, hmade⟩, hapart⟩ := h'.hung x hx
      refine ⟨⟨fun hold => hnot (hs x hold), hmade⟩, fun m d hd heq => ?_⟩
      rcases hd with hd | hd
      · exact hnot (heq ▸ hstem m d hd)
      · exact hapart m d hd heq
  value m d := by
    rintro (hd | hd)
    · exact (h.value m d hd).mono (fun x _ => .refl u x) fun x => Or.inl
    · exact (h'.value m d hd).mono (fun x _ => .refl u x) fun x => Or.inr
  attr m d := by
    rintro (hd | hd)
    · exact (h.attr m d hd).mono (fun x _ => .refl u x) fun x => Or.inl
    · exact (h'.attr m d hd).mono (fun x _ => .refl u x) fun x => Or.inr
  children m d := by
    rintro (hd | hd)
    · exact (h.children m d hd).imp fun v w hvw => hvw.mono fun _ _ => Or.inl
    · exact (h'.children m d hd).imp fun v w hvw => hvw.mono fun _ _ => Or.inr
  parent m d := by
    rintro (hd | hd)
    · refine (h.parent m d hd).imp (List.mem_append_left _) ?_
      exact fun ⟨k, p, hp, hdp⟩ => ⟨k, p, Or.inl hp, hdp⟩
    · refine (h'.parent m d hd).imp (List.mem_append_right _) ?_
      exact fun ⟨k, p, hp, hdp⟩ => ⟨k, p, Or.inr hp, hdp⟩

end Trunk

/-! ## Adding children -/

theorem has_append (s : Store) (p c : NodeId) : (s.append p (.node c)).Has v ↔ s.Has v := by
  cases v with
  | node m => rw [Has, Has, size_append]
  | _ => rfl

/-- Adding a child changes the child and its holder only. -/
theorem unchanged_append (s : Store) (hp : p < s.nodes.size) (hne : c ≠ p) (hvp : v ≠ .node p) (hvc : v ≠ .node c) :
    s.Unchanged (s.append p (.node c)) v := by
  cases v with
  | node m =>
      show (s.append p (.node c)).node m = s.node m
      rw [node_append_node s hp hne, if_neg fun heq => hvp (congrArg Value.node heq),
        if_neg fun heq => hvc (congrArg Value.node heq.1)]
  | object o => rfl
  | _ => trivial

/-- From `s` to `u` the node `p` has got the children `cs`, and nothing else was changed. -/
structure Laden (s u : Store) (p : NodeId) (cs : List NodeId) : Prop where
  kept : ∀ x, s.Has x → u.Has x ∧ (x ≠ .node p → s.Unchanged u x)
  record : ∃ nodes, u.node p = { s.node p with nodes }
  children : u.children p = s.children p ++ cs.map .node

theorem Laden.nil (s : Store) (p : NodeId) : s.Laden s p [] where
  kept x hx := ⟨hx, fun _ => .refl s x⟩
  record := ⟨_, rfl⟩
  children := (List.append_nil _).symm

/-- One more child that was made beforehand. -/
theorem Laden.cons {cs : List NodeId} (hp : p < s.nodes.size) (hs : s.Extends s') (hc : ¬ s.Has (.node c))
    (h : (s'.append p (.node c)).Laden u p cs) : s.Laden u p (c :: cs) := by
  have hne : c ≠ p := fun heq => hc (heq ▸ hp)
  have hp' : p < s'.nodes.size := Nat.lt_of_lt_of_le hp hs.size
  have hself : s'.node p = s.node p := hs.node p hp
  refine ⟨fun x hx => ?_, ?_, ?_⟩
  · obtain ⟨hhas, hkept⟩ := h.kept x ((has_append s' p c).mpr (hs.has hx))
    refine ⟨hhas, fun hxp => ?_⟩
    have hxc : x ≠ .node c := fun heq => hc (heq ▸ hx)
    exact ((hs.unchanged hx).trans (unchanged_append s' hp' hne hxp hxc)).trans (hkept hxp)
  · obtain ⟨nodes, hrecord⟩ := h.record
    rw [node_append_node s' hp' hne, if_pos rfl, hself] at hrecord
    exact ⟨nodes, hrecord⟩
  · rw [h.children, children_append_self s' _ hp', Store.children, hself, ← Store.children, List.append_assoc]
    rfl

theorem Laden.extends {cs : List NodeId} (h : s'.Laden u p cs) (hs : s.Extends s') (hp : s.nodes.size ≤ p) :
    s.Extends u := by
  refine extends_of_unchanged fun x hx => ?_
  obtain ⟨hhas, hkept⟩ := h.kept x (hs.has hx)
  refine ⟨hhas, (hs.unchanged hx).trans (hkept ?_)⟩
  rintro rfl
  exact Nat.not_lt_of_le hp hx

/-- **The node below which branches have grown is the top of a trunk.** -/
theorem Trunk.graft {value attr : Value} {cs : List NodeId} (hbud : s.Budded s' (cloned (s₀.node n) value attr))
    (hvalue : s₀.StandsFor s' (s.MadeBeside s') value (s₀.node n).value)
    (hattr : s₀.StandsFor s' (s.MadeBeside s') attr (s₀.node n).attr) (hladen : s'.Laden u s.nodes.size cs)
    (h : Trunk s₀ s' u ns cs stem hanging)
    (hbranches : List.Forall₂ (u.Branches stem s.nodes.size) (s₀.children n) (cs.map .node)) :
    Trunk s₀ s u (n :: ns) [s.nodes.size] (fun m d => m = n ∧ d = s.nodes.size ∨ stem m d)
      fun x => s.MadeBeside s' x ∨ hanging x := by
  obtain ⟨nodes, hrecord⟩ := hladen.record
  rw [hbud.record] at hrecord
  have hbeside (x : Value) (hx : s.MadeBeside s' x) : s'.Unchanged u x := (hladen.kept x hx.1.2).2 hx.2
  have htop : s'.Has (.node s.nodes.size) := hbud.lt
  refine ⟨?_, ?_, ?_, ?_, ?_, ?_, ?_⟩
  · rintro m d (⟨rfl, -⟩ | hd)
    · exact List.mem_cons_self ..
    · exact List.mem_cons_of_mem _ (h.listed m d hd)
  · rintro m d (⟨-, rfl⟩ | hd)
    · exact ⟨Nat.lt_irrefl _, (hladen.kept _ htop).1⟩
    · exact ⟨fun hold => (h.made m d hd).1 (hbud.toExtends.has hold), (h.made m d hd).2⟩
  · rintro x (hx | hx)
    · refine ⟨⟨hx.1.1, (hladen.kept x hx.1.2).1⟩, ?_⟩
      rintro m d (⟨-, rfl⟩ | hd)
      · exact hx.2
      · exact fun heq => (h.made m d hd).1 (heq ▸ hx.1.2)
    · obtain ⟨⟨hnot, hmade⟩, hapart⟩ := h.hung x hx
      refine ⟨⟨fun hold => hnot (hbud.toExtends.has hold), hmade⟩, ?_⟩
      rintro m d (⟨-, rfl⟩ | hd)
      · exact fun heq => hnot (heq ▸ htop)
      · exact hapart m d hd
  · rintro m d (⟨rfl, rfl⟩ | hd)
    · rw [hrecord]
      exact hvalue.mono hbeside fun x => Or.inl
    · exact (h.value m d hd).mono (fun x _ => .refl u x) fun x => Or.inr
  · rintro m d (⟨rfl, rfl⟩ | hd)
    · rw [hrecord]
      exact hattr.mono hbeside fun x => Or.inl
    · exact (h.attr m d hd).mono (fun x _ => .refl u x) fun x => Or.inr
  · rintro m d (⟨rfl, rfl⟩ | hd)
    · have hbare : s'.children s.nodes.size = [] := by rw [Store.children, hbud.record, children_cloned]
      rw [hladen.children, hbare, List.nil_append]
      exact hbranches.imp fun v w hvw => hvw.mono fun _ _ => Or.inr
    · exact (h.children m d hd).imp fun v w hvw => hvw.mono fun _ _ => Or.inr
  · rintro m d (⟨-, rfl⟩ | hd)
    · exact Or.inl (List.mem_singleton_self _)
    · refine Or.inr ?_
      rcases h.parent m d hd with htops | ⟨k, p, hp, hdp⟩
      · -- the tops of the branches are linked to the new node
        obtain ⟨v, -, k, e, -, heq, -, hparent⟩ :=
          exists_of_forall₂ hbranches.flip (List.mem_map_of_mem htops)
        cases heq
        exact ⟨n, s.nodes.size, Or.inl ⟨rfl, rfl⟩, hparent⟩
      · exact ⟨k, p, Or.inr hp, hdp⟩

/-! ## The clone of a tree -/

mutual

/-- **The clone of a tree is a trunk, with images of the payload hung on it.** -/
theorem cloneTree_trunk (hclosed : s₀.Closed) (hgrounded : s₀.Grounded) : (t : Subtree) → ∀ {s : Store},
    s₀.Extends s → s₀.Shows t → (∀ n ∈ t.preorder, n < s₀.nodes.size) →
      ∃ c u stem hanging, cloneTree t s = .ok c u ∧ s.Extends u ∧ Trunk s₀ s u t.preorder [c] stem hanging ∧
        stem t.root c ∧ (u.node c).parent = none
  | .node n branches, s, hs, hshows, hmade => by
      have hn : n < s₀.nodes.size := hmade n (by simp [Subtree.preorder])
      obtain ⟨value, attr, s₁, hpayload, hbud, hvalue, hattr⟩ := clonePayload_mirrored hclosed hgrounded hs hn
      obtain ⟨cs, u, stem, hanging, hinto, hladen, htrunk, hbranches⟩ :=
        cloneInto_trunk hclosed hgrounded branches (hs.trans hbud.toExtends) hbud.lt hs.size
          (fun b hb => hshows.branch hb) fun m hm => hmade m (by simp [Subtree.preorder, hm])
      have hchildren : s₀.children n = branches.map fun b => .node b.root := hshows.children
      rw [← hchildren] at hbranches
      refine ⟨s.nodes.size, u, _, _, ?_, ?_, htrunk.graft hbud hvalue hattr hladen hbranches, Or.inl ⟨rfl, rfl⟩, ?_⟩
      · rw [cloneTree, Run.bind_of_ok hpayload, Run.bind_of_ok hinto]
        rfl
      · exact hladen.extends hbud.toExtends (Nat.le_refl _)
      · obtain ⟨nodes, hrecord⟩ := hladen.record
        rw [hrecord, hbud.record]
        rfl

/-- Clones of trees are added to a node that was made after the trees. -/
theorem cloneInto_trunk (hclosed : s₀.Closed) (hgrounded : s₀.Grounded) : (ts : List Subtree) →
    ∀ {s : Store} {p : NodeId}, s₀.Extends s → p < s.nodes.size → s₀.nodes.size ≤ p → (∀ t ∈ ts, s₀.Shows t) →
      (∀ n ∈ Subtree.preorderAll ts, n < s₀.nodes.size) →
        ∃ cs u stem hanging, cloneInto p ts s = .ok () u ∧ s.Laden u p cs ∧
          Trunk s₀ s u (Subtree.preorderAll ts) cs stem hanging ∧
          List.Forall₂ (u.Branches stem p) (ts.map fun t => .node t.root) (cs.map .node)
  | [], s, p, _, _, _, _, _ => by
      refine ⟨[], s, fun _ _ => False, fun _ => False, ?_, .nil s p, ?_, .nil⟩
      · rw [cloneInto]
        rfl
      · exact ⟨fun _ _ => False.elim, fun _ _ => False.elim, fun _ => False.elim, fun _ _ => False.elim,
          fun _ _ => False.elim, fun _ _ => False.elim, fun _ _ => False.elim⟩
  | t :: ts, s, p, hs, hp, hnew, hshows, hmade => by
      rw [Subtree.preorderAll, List.forall_mem_append] at hmade
      obtain ⟨c, s₁, stem, hanging, htree, hextends, htrunk, hroot, hfree⟩ :=
        cloneTree_trunk hclosed hgrounded t hs (hshows t (List.mem_cons_self ..)) hmade.1
      obtain ⟨hc, hc₁⟩ := htrunk.made _ _ hroot
      have hp₁ : p < s₁.nodes.size := Nat.lt_of_lt_of_le hp hextends.size
      have hne : c ≠ p := fun heq => hc (heq ▸ hp)
      have hextends₀ : s₀.Extends (s₁.append p (.node c)) :=
        (hs.trans hextends).append hnew (Nat.le_trans hs.size (Nat.le_of_not_lt hc))
      obtain ⟨cs, u, stem', hanging', hinto, hladen, htrunk', hbranches⟩ :=
        cloneInto_trunk hclosed hgrounded ts hextends₀ ((size_append s₁ p _).symm ▸ hp₁) hnew
          (fun b hb => hshows b (List.mem_cons_of_mem _ hb)) hmade.2
      -- of the first clone only the links of the top are changed
      have hkept (x : Value) (hx : s.MadeSince s₁ x) : u.Has x ∧ (x ≠ .node c → s₁.Unchanged u x) := by
        obtain ⟨hhas, hkept⟩ := hladen.kept x ((has_append s₁ p c).mpr hx.2)
        refine ⟨hhas, fun hxc => ?_⟩
        have hxp : x ≠ .node p := fun heq => hx.1 (heq ▸ hp)
        exact (unchanged_append s₁ hp₁ hne hxp hxc).trans (hkept hxp)
      have htop : u.node c = { s₁.node c with parent := some (.node p), hint := .int (s₁.children p).length } := by
        have hsame : u.node c = (s₁.append p (.node c)).node c :=
          (hladen.kept (.node c) ((has_append s₁ p c).mpr hc₁)).2 fun heq => hne (Value.node.inj heq)
        rw [hsame, node_append_node s₁ hp₁ hne, if_neg hne, if_pos ⟨rfl, hc₁⟩]
      have hbefore {x : Value} (hx : s.MadeSince s₁ x) : (s₁.append p (.node c)).Has x := (has_append s₁ p c).mpr hx.2
      have hwhole := (htrunk.relink hroot hfree hkept ⟨_, _, htop⟩).union htrunk'
        (fun x hx => (has_append s₁ p c).mpr (hextends.has hx)) (fun m d hd => hbefore (htrunk.made m d hd))
        fun x hx => hbefore (htrunk.hung x hx).1
      refine ⟨c :: cs, u, _, _, ?_, .cons hp hextends hc hladen, hwhole, .cons ?_ ?_⟩
      · rw [cloneInto, Run.bind_of_ok htree, Run.bind_of_ok (push_node s₁ p c)]
        exact hinto
      · exact ⟨t.root, c, rfl, rfl, Or.inl hroot, by rw [htop]⟩
      · exact hbranches.imp fun v w hvw => hvw.mono fun _ _ => Or.inr

end

/-- **The clone of a node is a trunk for the tree below it.** From the node no way along the children comes
back, and all of them are nodes. Then cloning ends, and nothing of before is changed. -/
theorem clone_trunk (hclosed : s.Closed) (hgrounded : s.Grounded) (h : s.Acyclic (ReflTransGen s.Holds n)) :
    ∃ t c u stem hanging, s.Shows t ∧ t.root = n ∧ clone n s = .ok c u ∧ s.Extends u ∧
      Trunk s s u t.preorder [c] stem hanging ∧ stem n c ∧ (u.node c).parent = none := by
  obtain ⟨t, htree, rfl, hshows⟩ := subtree_of_acyclic h "clone" .refl
  have hmade : ∀ m ∈ t.preorder, m < s.nodes.size := fun m hm => h.exist m (hshows.down hm)
  obtain ⟨c, u, stem, hanging, hclone, hextends, htrunk, hroot, hfree⟩ :=
    cloneTree_trunk hclosed hgrounded t (.refl s) hshows hmade
  refine ⟨t, c, u, stem, hanging, hshows, rfl, ?_, hextends, htrunk, hroot, hfree⟩
  rw [clone, Run.bind_of_ok (Run.check_of_ok htree)]
  exact hclone

end Store
end SyntaxTree
