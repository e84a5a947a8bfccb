import SyntaxTree.Proofs.Trunks

/-!
# `Proofs.LeadingBack` — when a clone leads back to the original

The copies of the nodes of a tree are linked anew: each is the parent of its children. A node that a value or
an attribute holds is copied as well, with its children, but all of these copies keep the parents that the
originals have. So a clone is rid of the original only if what is held has nothing to do with a tree: it is no
node with children, no node with a parent, and no function that remembers a tracker which does
(`clone_detached_iff`).
-/

namespace SyntaxTree
namespace Store

open Relation

variable {s u : Store} {v w : Value} {n m c d : NodeId} {ns tops : List NodeId} {stem : NodeId → NodeId → Prop}
  {hanging : Value → Prop}

/-- What a value leads to: a node to its children, value, attributes and parent, and an object to all that
stands in it. -/
def kin (s : Store) : Value → List Value
  | .node n => s.children n ++ [(s.node n).value, (s.node n).attr] ++ (s.node n).parent.toList
  | .object o => contained (s.object o)
  | _ => []

/-- In `u` the node does not lead back to the nodes of `s`, and whatever nodes it leads to are the parents of
their children. -/
structure Detached (s u : Store) (c : NodeId) : Prop where
  new : ∀ m, Reaches u.kin [.node c] (.node m) → s.nodes.size ≤ m
  linked : ∀ x, Reaches u.kin [.node c] (.node x) → ∀ y ∈ u.children x, u.parentOf y = .ok (.node x)

/-- What a deep copy of a value goes on to. -/
def copied (s : Store) : Value → List Value
  | .node n => s.children n ++ [(s.node n).value, (s.node n).attr]
  | .object o => if Copying.isShared (s.object o) then [] else contained (s.object o)
  | _ => []

/-- The value is met when the values and attributes of the tree below the node are copied. -/
def HeldBelow (s : Store) (n : NodeId) (v : Value) : Prop :=
  ∃ m, ReflTransGen s.Holds n m ∧ Reaches s.copied [(s.node m).value, (s.node m).attr] v

/-- The value is not tied to a tree: a node without children, and without a parent that leads to a node. What
all copies share leads to no node either. -/
def Untied (s : Store) : Value → Prop
  | .node n => s.children n = [] ∧ ∀ p, (s.node n).parent = some p → s.Nodeless p
  | .object o => Copying.isShared (s.object o) = true → s.Nodeless (.object o)
  | _ => True

/-! ## What is held -/

theorem HeldBelow.value (h : ReflTransGen s.Holds n m) : s.HeldBelow n (s.node m).value :=
  ⟨m, h, .root (List.mem_cons_self ..)⟩

theorem HeldBelow.attr (h : ReflTransGen s.Holds n m) : s.HeldBelow n (s.node m).attr :=
  ⟨m, h, .root (List.mem_cons_of_mem _ (List.mem_singleton_self _))⟩

theorem HeldBelow.step (h : s.HeldBelow n v) (hw : w ∈ s.copied v) : s.HeldBelow n w := by
  obtain ⟨m, hm, hv⟩ := h
  exact ⟨m, hm, hv.step hw⟩

theorem Closed.copied (hclosed : s.Closed) (hw : w ∈ s.copied v) : s.Known w := by
  cases v with
  | node n =>
      rcases List.mem_append.mp hw with hchild | hfield
      · exact (hclosed.node n).children w hchild
      · rcases List.mem_cons.mp hfield with rfl | hfield
        · exact (hclosed.node n).value
        · rw [List.mem_singleton.mp hfield]
          exact (hclosed.node n).attr
  | object o =>
      rw [Store.copied] at hw
      split at hw
      · cases hw
      · exact hclosed.object o w hw
  | _ => cases hw

theorem HeldBelow.known (hclosed : s.Closed) (h : s.HeldBelow n v) : s.Known v := by
  obtain ⟨m, -, hv⟩ := h
  cases hv with
  | root hroot =>
      rcases List.mem_cons.mp hroot with rfl | hroot
      · exact (hclosed.node m).value
      · rw [List.mem_singleton.mp hroot]
        exact (hclosed.node m).attr
  | step _ hw => exact hclosed.copied hw

/-! ## What the clone leads to -/

theorem copied_scalar (s : Store) (hv : v.isLink = false) : s.copied v = [] := by
  cases v with
  | node n => cases hv
  | object o => cases hv
  | _ => rfl

theorem kin_scalar (s : Store) (hv : v.isLink = false) : s.kin v = [] := by
  cases v with
  | node n => cases hv
  | object o => cases hv
  | _ => rfl

/-- What stands for something leads on to what stands for the things that are copied with it. -/
theorem StandsFor.step (hs : s.Extends u) (hv : s.Known v) (h : s.StandsFor u hanging w v) {x : Value}
    (hx : x ∈ s.copied v) : ∃ y ∈ u.kin w, s.StandsFor u hanging y x := by
  rcases h with ⟨hown, rfl⟩ | hcounterpart
  · cases hown with
    | scalar hscalar =>
        rw [copied_scalar s hscalar] at hx
        cases hx
    | shared hshared =>
        rw [copied, if_pos hshared] at hx
        cases hx
    | @tuple o items ho hitems =>
        have hsame : u.object o = s.object o := hs.object o (hv.resolve_left Bool.noConfusion)
        rw [copied, ho] at hx
        refine ⟨x, ?_, Or.inl ⟨hitems x hx, rfl⟩⟩
        rw [kin, hsame, ho]
        exact hx
  · cases (reflects_counterpart s u hanging).mirrored v w hcounterpart with
    | object hshared hparts =>
        rw [copied, hshared] at hx
        exact exists_of_forall₂ hparts hx
    | @node n m hmade =>
        rcases List.mem_append.mp hx with hchild | hfield
        · obtain ⟨y, hy, hxy⟩ := exists_of_forall₂ hmade.children hchild
          exact ⟨y, List.mem_append_left _ (List.mem_append_left _ hy), hxy⟩
        · rcases List.mem_cons.mp hfield with rfl | hfield
          · exact ⟨(u.node m).value, by simp [kin], hmade.value⟩
          · rw [List.mem_singleton.mp hfield]
            exact ⟨(u.node m).attr, by simp [kin], hmade.attr⟩

/-- Every node below the original stands in the trunk, within reach of its top. -/
theorem Trunk.reaches (h : Trunk s s u ns tops stem hanging) (hroot : stem n c)
    (hm : ReflTransGen s.Holds n m) : ∃ d, stem m d ∧ Reaches u.kin [.node c] (.node d) := by
  induction hm with
  | refl => exact ⟨c, hroot, .root (List.mem_singleton_self _)⟩
  | tail _ hholds ih =>
      obtain ⟨d, hd, hreach⟩ := ih
      obtain ⟨w, hw, k, e, heq, rfl, he, -⟩ := exists_of_forall₂ (h.children _ d hd) hholds
      cases heq
      exact ⟨e, he, hreach.step (List.mem_append_left _ (List.mem_append_left _ hw))⟩

/-- **The clone leads to an image of all that is held.** -/
theorem Trunk.reaches_image (hclosed : s.Closed) (hs : s.Extends u) (h : Trunk s s u ns tops stem hanging)
    (hroot : stem n c) (hv : s.HeldBelow n v) :
    ∃ w, s.StandsFor u hanging w v ∧ Reaches u.kin [.node c] w := by
  obtain ⟨m, hm, hreach⟩ := hv
  induction hreach with
  | root hmem =>
      obtain ⟨d, hd, hreach⟩ := h.reaches hroot hm
      rcases List.mem_cons.mp hmem with rfl | hmem
      · exact ⟨_, h.value m d hd, hreach.step (by simp [kin])⟩
      · rw [List.mem_singleton.mp hmem]
        exact ⟨_, h.attr m d hd, hreach.step (by simp [kin])⟩
  | @step x y hx hy ih =>
      obtain ⟨w, hw, hreach⟩ := ih
      have hknown : s.Known x := HeldBelow.known hclosed ⟨m, hm, hx⟩
      obtain ⟨z, hz, hstands⟩ := hw.step hs hknown hy
      exact ⟨z, hstands, hreach.step hz⟩

/-! ## What is tied to a tree leads back -/

/-- What is old and within reach leads to no node, if the clone does not lead back. -/
theorem Detached.nodeless (h : s.Detached u c) (hclosed : s.Closed) (hs : s.Extends u) (hv : s.Known v)
    (hreach : Reaches u.kin [.node c] v) : s.Nodeless v := by
  have hold {w : Value} (hw : Reaches s.inside [v] w) : s.Known w ∧ Reaches u.kin [.node c] w := by
    induction hw with
    | root hmem =>
        rw [List.mem_singleton.mp hmem]
        exact ⟨hv, hreach⟩
    | @step x y _ hy ih =>
        obtain ⟨hknown, hx⟩ := ih
        cases x with
        | object o =>
            have hsame : u.object o = s.object o := hs.object o (hknown.resolve_left Bool.noConfusion)
            refine ⟨hclosed.object o y hy, hx.step ?_⟩
            rw [kin, hsame]
            exact hy
        | _ => cases hy
  refine fun w hw => ⟨?_, ?_⟩
  · rintro m rfl
    obtain ⟨hknown, hm⟩ := hold hw
    exact Nat.not_lt_of_le (h.new m hm) (hknown.resolve_left Bool.noConfusion)
  · rintro o rfl
    exact (hold hw).1.resolve_left Bool.noConfusion

/-- **What is held is not tied to a tree**, if the clone does not lead back. -/
theorem Detached.untied (h : s.Detached u c) (hclosed : s.Closed) (hs : s.Extends u)
    (htrunk : Trunk s s u ns tops stem hanging) (hroot : stem n c) (hv : s.HeldBelow n v)
    (hnodes : ∀ m, v = .node m → ∀ w ∈ s.children m, ∃ k, w = .node k) : s.Untied v := by
  obtain ⟨w, hw, hreach⟩ := htrunk.reaches_image hclosed hs hroot hv
  cases v with
  | object o =>
      intro hshared
      rcases hw with ⟨-, rfl⟩ | hcounterpart
      · exact h.nodeless hclosed hs (hv.known hclosed) hreach
      · cases (reflects_counterpart s u hanging).mirrored _ w hcounterpart with
        | object hnot _ =>
            rw [hnot] at hshared
            cases hshared
  | node m =>
      rcases hw with ⟨hown, -⟩ | hcounterpart
      · cases hown with | scalar hscalar => cases hscalar
      have hmade := (reflects_counterpart s u hanging).made _ w hcounterpart
      cases (reflects_counterpart s u hanging).mirrored _ w hcounterpart with
      | @node _ x hremade =>
          have hnew : ¬ s.Has (.node x) := (htrunk.hung _ hmade.2).1.1
          refine ⟨List.eq_nil_iff_forall_not_mem.mpr fun v hchild => ?_, fun p hp => ?_⟩
          · -- the copy of the child is linked to an old node, if to any
            obtain ⟨k, rfl⟩ := hnodes m rfl v hchild
            obtain ⟨y, hy, hstands⟩ := exists_of_forall₂ hremade.children hchild
            have hlinked := h.linked x hreach y hy
            rcases hstands with ⟨hown, -⟩ | hcounterpart'
            · cases hown with | scalar hscalar => cases hscalar
            cases (reflects_counterpart s u hanging).mirrored _ y hcounterpart' with
            | @node _ e hremade' =>
                rw [parentOf, parentValue, hremade'.parent] at hlinked
                cases hparent : (s.node k).parent with
                | none =>
                    rw [hparent] at hlinked
                    cases hlinked
                | some q =>
                    rw [hparent] at hlinked
                    have heq : q = .node x := Except.ok.inj hlinked
                    exact hnew ((heq ▸ (hclosed.node k).parent q hparent).resolve_left Bool.noConfusion)
          · refine h.nodeless hclosed hs ((hclosed.node m).parent p hp) (hreach.step ?_)
            rw [kin, hremade.parent, hp]
            simp
  | _ => trivial

/-! ## What is not tied to a tree does not -/

/-- What a clone leads to: its trunk, images of what is held, and what leads to no node. -/
inductive Belongs (s u : Store) (n : NodeId) (stem : NodeId → NodeId → Prop) (hanging : Value → Prop) :
    Value → Prop
  | trunk {m d : NodeId} : stem m d → Belongs s u n stem hanging (.node d)
  | image {v w : Value} : s.HeldBelow n v → s.StandsFor u hanging w v → Belongs s u n stem hanging w
  | aside {w : Value} : s.Nodeless w → Belongs s u n stem hanging w

/-- What belongs to a clone leads to nothing else, if what is held is not tied to a tree. -/
theorem Belongs.kin (hclosed : s.Closed) (hs : s.Extends u) (htrunk : Trunk s s u ns [c] stem hanging)
    (hbelow : ∀ m ∈ ns, ReflTransGen s.Holds n m) (hfree : (u.node c).parent = none)
    (huntied : ∀ v, s.HeldBelow n v → s.Untied v) (h : s.Belongs u n stem hanging v) (hw : w ∈ u.kin v) :
    s.Belongs u n stem hanging w := by
  have hinside {o : ObjectId} (ho : s.Nodeless (.object o)) (hmem : w ∈ contained (u.object o)) :
      s.Belongs u n stem hanging w := by
    rw [hs.object o ho.lt_size] at hmem
    exact .aside (ho.contained hmem)
  cases h with
  | @trunk m d hd =>
      have hm := hbelow m (htrunk.listed m d hd)
      rcases List.mem_append.mp hw with hlink | hparent
      · rcases List.mem_append.mp hlink with hchild | hfield
        · obtain ⟨v, -, k, e, -, rfl, he, -⟩ := exists_of_forall₂ (htrunk.children m d hd).flip hchild
          exact .trunk he
        · rcases List.mem_cons.mp hfield with rfl | hfield
          · exact .image (.value hm) (htrunk.value m d hd)
          · rw [List.mem_singleton.mp hfield]
            exact .image (.attr hm) (htrunk.attr m d hd)
      · rcases htrunk.parent m d hd with htop | ⟨k, p, hp, hdp⟩
        · rw [List.mem_singleton.mp htop, hfree] at hparent
          cases hparent
        · rw [hdp] at hparent
          rw [List.mem_singleton.mp hparent]
          exact .trunk hp
  | @image x _ hheld hstands =>
      have huntied := huntied x hheld
      rcases hstands with ⟨hown, rfl⟩ | hcounterpart
      · cases hown with
        | scalar hscalar =>
            rw [kin_scalar u hscalar] at hw
            cases hw
        | shared hshared => exact hinside (huntied hshared) hw
        | @tuple o items ho hitems =>
            have hsame : u.object o = s.object o :=
              hs.object o ((hheld.known hclosed).resolve_left Bool.noConfusion)
            rw [Store.kin, hsame, ho] at hw
            refine .image (hheld.step ?_) (Or.inl ⟨hitems w hw, rfl⟩)
            rw [copied, ho]
            exact hw
      · cases (reflects_counterpart s u hanging).mirrored x v hcounterpart with
        | object hshared hparts =>
            obtain ⟨y, hy, hstands⟩ := exists_of_forall₂ hparts.flip hw
            refine .image (hheld.step ?_) hstands
            rw [copied, hshared]
            exact hy
        | @node m e hremade =>
            obtain ⟨hchildless, horphan⟩ := huntied
            have hbare : u.children e = [] := hremade.children_eq_nil hchildless
            rcases List.mem_append.mp hw with hlink | hparent
            · rw [hbare, List.nil_append] at hlink
              rcases List.mem_cons.mp hlink with rfl | hlink
              · exact .image (hheld.step (by simp [copied])) hremade.value
              · rw [List.mem_singleton.mp hlink]
                exact .image (hheld.step (by simp [copied])) hremade.attr
            · rw [hremade.parent] at hparent
              exact .aside (horphan w (Option.mem_toList.mp hparent))
  | aside hnone =>
      cases v with
      | node m => exact absurd rfl (hnone.ne_node m)
      | object o => exact hinside hnone hw
      | _ => cases hw

/-- The clone leads to nothing but what belongs to it. -/
theorem belongs_of_reaches (hclosed : s.Closed) (hs : s.Extends u) (htrunk : Trunk s s u ns [c] stem hanging)
    (hbelow : ∀ m ∈ ns, ReflTransGen s.Holds n m) (hroot : stem n c) (hfree : (u.node c).parent = none)
    (huntied : ∀ v, s.HeldBelow n v → s.Untied v) (h : Reaches u.kin [.node c] v) :
    s.Belongs u n stem hanging v := by
  induction h with
  | root hmem =>
      rw [List.mem_singleton.mp hmem]
      exact .trunk hroot
  | step _ hw ih => exact ih.kin hclosed hs htrunk hbelow hfree huntied hw

/-- The nodes of a clone are new, and linked to their children. -/
theorem Belongs.node (htrunk : Trunk s s u ns tops stem hanging) (huntied : ∀ v, s.HeldBelow n v → s.Untied v)
    (h : s.Belongs u n stem hanging (.node d)) :
    s.nodes.size ≤ d ∧ ∀ y ∈ u.children d, u.parentOf y = .ok (.node d) := by
  cases h with
  | @trunk m _ hd =>
      refine ⟨Nat.le_of_not_lt (htrunk.made m d hd).1, fun y hy => ?_⟩
      obtain ⟨v, -, k, e, -, rfl, -, hparent⟩ := exists_of_forall₂ (htrunk.children m d hd).flip hy
      rw [parentOf, parentValue, hparent]
      rfl
  | @image v _ hheld hstands =>
      rcases hstands with ⟨hown, rfl⟩ | hcounterpart
      · cases hown with | scalar hscalar => cases hscalar
      have hmade := (reflects_counterpart s u hanging).made v _ hcounterpart
      cases (reflects_counterpart s u hanging).mirrored v _ hcounterpart with
      | @node m _ hremade =>
          have hbare : u.children d = [] := hremade.children_eq_nil (huntied _ hheld).1
          refine ⟨Nat.le_of_not_lt (htrunk.hung _ hmade.2).1.1, fun y hy => ?_⟩
          rw [hbare] at hy
          cases hy
  | aside hnone => exact absurd rfl (hnone.ne_node d)

/-- **A clone is rid of its original just if what is held below it is not tied to a tree.** From the node no
way along the children comes back, and all of them are nodes; and what is held consists of trees of nodes as
well. Then the node has a clone. It does not lead back to any node of before, and leads only to nodes that are
the parents of their children, if and only if no value and no attribute in the tree holds a node with
children, a node whose parent leads to a node, or a function that remembers one. -/
theorem clone_detached_iff (hclosed : s.Closed) (hgrounded : s.Grounded) (h : s.Acyclic (ReflTransGen s.Holds n))
    (hnodes : ∀ m, s.HeldBelow n (.node m) → ∀ v ∈ s.children m, ∃ k, v = .node k) :
    ∃ c u, clone n s = .ok c u ∧ (s.Detached u c ↔ ∀ v, s.HeldBelow n v → s.Untied v) := by
  obtain ⟨t, c, u, stem, hanging, hshows, rfl, hclone, hs, htrunk, hroot, hfree⟩ := clone_trunk hclosed hgrounded h
  refine ⟨c, u, hclone, fun hdetached v hv => ?_, fun huntied => ?_⟩
  · exact hdetached.untied hclosed hs htrunk hroot hv fun m heq => hnodes m (heq ▸ hv)
  · have hbelongs {d : NodeId} (hd : Reaches u.kin [.node c] (.node d)) :=
      (belongs_of_reaches hclosed hs htrunk (fun m hm => hshows.down hm) hroot hfree huntied hd).node htrunk huntied
    exact ⟨fun m hm => (hbelongs hm).1, fun x hx => (hbelongs hx).2⟩

/-! ## Tokens of no tree, and of the same tree -/

/-- What does not lead out of some values is all that is held below a node, if the payloads are among them. -/
theorem heldBelow_subset {vs : List Value}
    (hpayload : ∀ m, m < s.nodes.size → (s.node m).value ∈ vs ∧ (s.node m).attr ∈ vs)
    (hcopied : ∀ x ∈ vs, ∀ y ∈ s.copied x, y ∈ vs) (h : s.Acyclic (ReflTransGen s.Holds n)) (hv : s.HeldBelow n v) :
    v ∈ vs := by
  obtain ⟨m, hm, hreach⟩ := hv
  obtain ⟨hvalue, hattr⟩ := hpayload m (h.exist m hm)
  induction hreach with
  | root hmem =>
      rcases List.mem_cons.mp hmem with rfl | hmem
      · exact hvalue
      · rw [List.mem_singleton.mp hmem]
        exact hattr
  | step _ hy ih => exact hcopied _ ih _ hy

theorem grounded_of_none (h : ∀ o < s.objects.size, Copying.isMadeLast (s.object o) = false) : s.Grounded := by
  intro o hcycle
  obtain ⟨p, ⟨hlast, hmem⟩, -⟩ := TransGen.head'_iff.mp hcycle
  have ho : o < s.objects.size := lt_size_of_object fun heq => by
    rw [heq] at hlast
    cases hlast
  rw [h o ho] at hlast
  cases hlast

/-- A tree with one closing brace, whose attributes hold an opening brace that stands in no tree. -/
def withToken : Store :=
  { Store.empty with
    nodes := #[⟨.node, .null, .null, some [.node 1], .object 0, none, .int (-1)⟩,
      ⟨.node, .text "brace.close", .text "\x7d", none, .object 1, some (.node 0), .int 0⟩,
      ⟨.node, .text "brace.open", .text "\x7b", none, .object 2, none, .int (-1)⟩]
    objects := #[.map [], .map [(.text "open", .node 2)], .map []] }

/-- The clone of the tree is rid of the original. -/
theorem clone_detached_withToken : ∃ c u, clone 0 withToken = .ok c u ∧ withToken.Detached u c := by
  have hacyclic : withToken.Acyclic (ReflTransGen withToken.Holds 0) := acyclic_of_ordered (by decide) (by decide)
  have hheld {v : Value} (hv : withToken.HeldBelow 0 v) : v ∈ [.null, .text "\x7d", .text "\x7b", .text "open",
      .object 0, .object 1, .object 2, .node 2] :=
    heldBelow_subset (by decide) (by decide) hacyclic hv
  have hnodes (m : NodeId) (hm : withToken.HeldBelow 0 (.node m)) (v : Value) (hv : v ∈ withToken.children m) :
      ∃ k, v = .node k := by
    have hm : m = 2 := by simpa using hheld hm
    subst hm
    cases hv
  obtain ⟨c, u, hclone, hiff⟩ := clone_detached_iff (.of_bounded (by decide) (by decide))
    (grounded_of_none (by decide)) hacyclic hnodes
  refine ⟨c, u, hclone, hiff.mpr fun v hv => ?_⟩
  cases v with
  | node m =>
      have hm : m = 2 := by simpa using hheld hv
      subst hm
      exact ⟨rfl, fun p hp => by cases hp⟩
  | object o =>
      intro hshared
      have ho : o = 0 ∨ o = 1 ∨ o = 2 := by simpa using hheld hv
      rcases ho with rfl | rfl | rfl <;> cases hshared
  | _ => trivial

/-- A pair of braces, of which the closing one has the opening one for an attribute. -/
def withOpening : Store :=
  { Store.empty with
    nodes := #[⟨.node, .null, .null, some [.node 1, .node 2], .object 0, none, .int (-1)⟩,
      ⟨.node, .text "brace.open", .text "\x7b", none, .object 1, some (.node 0), .int 0⟩,
      ⟨.node, .text "brace.close", .text "\x7d", none, .object 2, some (.node 0), .int 1⟩]
    objects := #[.map [], .map [], .map [(.text "open", .node 1)]] }

/-- The store after the clone of the pair. The copy that the attribute holds is no child of the clone, and has
the parent of before. -/
def withOpeningCloned : Store :=
  { Store.empty with
    nodes := withOpening.nodes ++
      #[⟨.node, .null, .null, some [.node 4, .node 5], .object 4, none, .int (-1)⟩,
        ⟨.node, .text "brace.open", .text "\x7b", none, .object 6, some (.node 3), .int 0⟩,
        ⟨.node, .text "brace.close", .text "\x7d", none, .object 8, some (.node 3), .int 1⟩,
        ⟨.node, .text "brace.open", .text "\x7b", none, .object 9, some (.node 0), .int 0⟩]
    objects := withOpening.objects ++
      #[.map [], .map [], .map [], .map [], .map [], .map [(.text "open", .node 6)], .map []] }

/-- From the clone of the pair the way leads on to the closing brace, its attributes, the copy of the opening
brace in them, and back to the original. -/
theorem clone_leads_back : clone 0 withOpening = .ok 3 withOpeningCloned ∧
    Reaches withOpeningCloned.kin [.node 3] (.node 0) ∧ ¬ withOpening.Detached withOpeningCloned 3 := by
  have hclone : clone 0 withOpening = .ok 3 withOpeningCloned := by cbv
  have hroot : Reaches withOpeningCloned.kin [.node 3] (.node 3) := .root (List.mem_singleton_self _)
  have hclosing : Reaches withOpeningCloned.kin [.node 3] (.node 5) := hroot.step (by decide)
  have hattr : Reaches withOpeningCloned.kin [.node 3] (.object 8) := hclosing.step (by decide)
  have hopening : Reaches withOpeningCloned.kin [.node 3] (.node 6) := hattr.step (by decide)
  have hback : Reaches withOpeningCloned.kin [.node 3] (.node 0) := hopening.step (by decide)
  exact ⟨hclone, hback, fun h => absurd (h.new 0 hback) (by decide)⟩

end Store
end SyntaxTree
