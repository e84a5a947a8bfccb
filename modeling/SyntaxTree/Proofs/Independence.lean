import Mathlib
import SyntaxTree.Proofs.Divergence
import SyntaxTree.Proofs.FreshCopies
import SyntaxTree.Proofs.Programs

/-!
# `Proofs.Independence` — a clone and its original are independent for ever

A clone shares nothing with its original but what cannot change. So there is a fence around all that there
was before, with the clone outside, and another one around the clone, with everything else outside. Both stand
for as long as a program keeps out of them: what is done to the clone, and to what is made later, never changes
the original (`clone_independent`), and the other way round.

The type of a node is not copied. If it can change, as a list can, the change of the one shows in the other
(`mutable_type_not_independent`).
-/

namespace SyntaxTree

open Run Relation

namespace Store

open Fence

variable {s s₁ u : Store} {v : Value} {n c : NodeId}

/-! ## What a program handles -/

/-- The value is a scalar, or something that has been made. -/
def Known (s : Store) (v : Value) : Prop := v.isLink = false ∨ s.Has v

/-- Nothing in the store leads to what has not been made. -/
structure Closed (s : Store) : Prop where
  node : ∀ n, (s.node n).All s.Known
  object : ∀ o, ∀ v ∈ contained (s.object o), s.Known v

instance (s : Store) (v : Value) : Decidable (s.Known v) :=
  inferInstanceAs (Decidable (v.isLink = false ∨ s.Has v))

theorem Closed.of_bounded (hnode : ∀ n, n < s.nodes.size → ∀ v ∈ (s.node n).held, s.Known v)
    (hobject : ∀ o, o < s.objects.size → ∀ v ∈ contained (s.object o), s.Known v) : s.Closed where
  node n := by
    by_cases hn : n < s.nodes.size
    · exact NodeRecord.all_of_held (hnode n hn)
    · rw [node_of_size_le s (Nat.le_of_not_lt hn)]
      exact NodeRecord.all_blank (fun _ => Or.inl) (Or.inl rfl)
  object o := by
    by_cases ho : o < s.objects.size
    · exact hobject o ho
    · rw [object_of_size_le s (Nat.le_of_not_lt ho)]
      intro v hv
      cases hv

/-- What may be done to the copy `c` is done with what it leads to in `u`, and with what was not there
in `s`. -/
def OfCopy (s : Store) (c : NodeId) (u : Store) (v : Value) : Prop :=
  v.isLink = false ∨ ¬ s.Has v ∨ Reaches u.leads [.node c] v

/-- What does not touch the copy is done with what was there in `s`, and with what was not made by `s₁`. -/
def NotOfCopy (s s₁ : Store) (v : Value) : Prop := s.Known v ∨ ¬ s₁.Has v

/-- The copy of the node can be told apart from it: the payload is plain data, and the type cannot change. -/
structure Separable (s : Store) (n : NodeId) : Prop where
  type : s.Frozen (s.node n).type
  value : s.Data (s.node n).value
  attr : s.Data (s.node n).attr

/-! ## Around the original -/

theorem stands_around (s : Store) : (around s).Stands s where
  nodes := Nat.le_refl _
  objects := Nat.le_refl _
  node _ _ := rfl
  object _ _ := rfl
  fixed _ _ _ := rfl
  fields n hn := by
    rw [node_of_size_le s (Nat.le_of_not_lt hn)]
    exact all_blank (outside_scalar rfl)
  contents o ho _ := by
    rw [object_of_size_le s (Nat.le_of_not_lt ho)]
    intro v hv
    cases hv

theorem extends_of_stands (h : (around s).Stands u) : s.Extends u := ⟨h.nodes, h.node, h.objects, h.object⟩

theorem outside_ofCopy (hc : s.nodes.size ≤ c) (h : (around s).Stands u) (hv : s.OfCopy c u v) :
    (around s).Outside v := by
  rcases hv with hscalar | hnew | hreached
  · exact outside_scalar hscalar
  · exact Or.inl hnew
  · exact h.reaches (outside_newNode hc) hreached

/-- A clone of a node with a separable payload is outside. -/
theorem Separable.duplicates (h : s.Separable n) : (around s).Duplicates (s.node n) :=
  ⟨Or.inr h.type, Or.inr ⟨fun _ => id, h.value⟩, Or.inr ⟨fun _ => id, h.attr⟩⟩

/-- The original stays the same as long as the fence around it stands. -/
theorem Separable.sameAt (h : s.Separable n) (hn : n < s.nodes.size) (hs : s.Extends u) : s.SameAt u n := by
  have hdata {v : Value} (hv : s.Data v) : s.SameBelow u v := by
    refine (inherited_data s).sameBelow (fun o ho => ?_) hv
    rcases ho.cases with hscalar | ⟨p, heq, hp⟩
    · cases hscalar
    · cases heq
      exact hs.object o hp
  have htype : s.SameBelow u (s.node n).type :=
    (inherited_frozen s).sameBelow (fun o ho => hs.object o ho.cases_object.1) h.type
  exact ⟨hs.node n hn, htype, hdata h.value, h.attr, hdata h.attr⟩

/-! ## Around the copy -/

theorem outside_notOfCopy (hv : s.NotOfCopy s₁ v) : (between s s₁).Outside v := by
  rcases hv with (hscalar | hold) | hnew
  · exact outside_scalar hscalar
  · exact Or.inl fun h => h.2 hold
  · exact Or.inl fun h => hnew h.1

/-- A fence around what has been made since `s` stands, if nothing in `s` leads there. -/
theorem stands_between (hclosed : s.Closed) (hs : s.Extends s₁) : (between s s₁).Stands s₁ where
  nodes := Nat.le_refl _
  objects := Nat.le_refl _
  node _ _ := rfl
  object _ _ := rfl
  fixed _ _ _ := rfl
  fields n hn := by
    by_cases hold : n < s.nodes.size
    · rw [hs.node n hold]
      exact (hclosed.node n).mono fun v hv => outside_notOfCopy (Or.inl hv)
    · rw [node_of_size_le s₁ (Nat.le_of_not_lt fun hlt => hn ⟨hlt, hold⟩)]
      exact all_blank (outside_scalar rfl)
  contents o ho _ := by
    by_cases hold : o < s.objects.size
    · rw [hs.object o hold]
      exact fun v hv => outside_notOfCopy (Or.inl (hclosed.object o v hv))
    · rw [object_of_size_le s₁ (Nat.le_of_not_lt fun hlt => ho ⟨hlt, hold⟩)]
      intro v hv
      cases hv

/-- The copy `c` in `s₁` of a part of `s`: a tree of new nodes, each the duplicate of a separable one, and
outside of all that there was. -/
structure Separate (s s₁ : Store) (c : NodeId) : Prop extends s.Extends s₁ where
  stands : (around s).Stands s₁
  acyclic : s₁.Acyclic (ReflTransGen s₁.Holds c)
  new : ∀ m, ReflTransGen s₁.Holds c m → s.nodes.size ≤ m ∧ m < s₁.nodes.size
  duplicate : ∀ m, ReflTransGen s₁.Holds c m → ∃ k, s.Separable k ∧ s.Duplicate s₁ k m

/-- **A clone is separate from its original.** -/
theorem clone_separate (h : s.Acyclic (ReflTransGen s.Holds n))
    (hpayload : ∀ m, ReflTransGen s.Holds n m → s.Separable m) :
    ∃ c s₁, clone n s = .ok c s₁ ∧ s.Separate s₁ c := by
  obtain ⟨t, htree, rfl, hshows⟩ := subtree_of_acyclic h "clone" .refl
  have hseparable : ∀ m ∈ t.preorder, s.Separable m := fun m hm => hpayload m (hshows.down hm)
  have hmade : ∀ m ∈ t.preorder, m < s.nodes.size := fun m hm => h.exist m (hshows.down hm)
  have hclonable : s.Clonable t.preorder := fun m hm =>
    ⟨hmade m hm, (hseparable m hm).value.nodeless, (hseparable m hm).attr.nodeless⟩
  obtain ⟨u, s₁, hclone, hcloned⟩ := cloneTree_cloned t (.refl s) hshows hclonable
  have hnew : ∀ m ∈ u.preorder, s.nodes.size ≤ m ∧ m < s₁.nodes.size := fun m hm => hcloned.mem_preorder.mp hm
  have hstands : (around s).Stands s₁ := by
    have hduplicates : ∀ m ∈ t.preorder, ∀ w, (around s).Stands w → (around s).Duplicates (w.node m) := by
      intro m hm w hw
      rw [hw.node m (hmade m hm)]
      exact (hseparable m hm).duplicates
    have hends := yields_cloneTree t hduplicates s (stands_around s)
    exact ((Run.ends_of_ok hclone).mp hends).1
  refine ⟨u.root, s₁, ?_, hcloned.toExtends, hstands, ?_, fun m hm => ?_, fun m hm => ?_⟩
  · rw [clone, Run.bind_of_ok (Run.check_of_ok htree)]
    exact hclone
  · exact hcloned.shows.acyclic fun m hm => (hnew m hm).2
  · exact hnew m (hcloned.shows.mem_of_down hm)
  · obtain ⟨k, hk, hdup⟩ := exists_of_forall₂ hcloned.matched.forall₂.flip (hcloned.shows.mem_of_down hm)
    exact ⟨k, hseparable k hk, hdup⟩

/-- What is made since and what cannot change is the same as long as the fence around the copy stands. -/
theorem Separate.sameAt (h : s.Separate s₁ c) (hu : (between s s₁).Stands u) {m : NodeId}
    (hm : ReflTransGen s₁.Holds c m) : s₁.SameAt u m := by
  obtain ⟨k, hseparable, hdup⟩ := h.duplicate m hm
  obtain ⟨hge, hlt⟩ := h.new m hm
  have hall := h.stands.all (outside_newNode hge)
  -- an object that the copy leads to is new, or it cannot change
  have hdata {v : Value} (hv : (around s).Outside v ∧ s₁.Data v) : s₁.SameBelow u v := by
    refine (h.stands.inherited.and (inherited_data s₁)).sameBelow (fun o ho => ?_) hv
    rcases ho with ⟨hnew | hfixed, hthere⟩
    · rcases hthere.cases with hscalar | ⟨p, heq, hp⟩
      · cases hscalar
      · cases heq
        exact hu.object o ⟨hp, hnew⟩
    · exact hu.unchanged (hfixed.extends h.toExtends)
  have htype : s₁.SameBelow u (s₁.node m).type := by
    rw [hdup.type]
    exact (inherited_frozen s₁).sameBelow (fun o ho => hu.unchanged ho) (hseparable.type.extends h.toExtends)
  have hvalue := hseparable.value.copy hdup.value.contents
  have hattr := hseparable.attr.copy hdup.attr.contents
  exact ⟨hu.node m ⟨hlt, Nat.not_lt_of_le hge⟩, htype, hdata ⟨hall.value, hvalue⟩, hattr, hdata ⟨hall.attr, hattr⟩⟩

/-! ## Independence -/

/-- What was made from `s` to `s₁` is in `u` what it is in `s₁`. -/
structure KeepsBetween (s s₁ u : Store) : Prop where
  node : ∀ m, s.nodes.size ≤ m → m < s₁.nodes.size → u.node m = s₁.node m
  object : ∀ o, s.objects.size ≤ o → o < s₁.objects.size → u.object o = s₁.object o

/-- **A clone and its original are independent for ever.** From the node no way along the children comes back or
leads to something else than a node of this library, and all values and attributes below it are plain data,
and all types such that they cannot change. Then cloning ends, and whatever a program does with the clone and
what is made later, all nodes of before stay what they were, and so does the outline of the original; and
whatever it does with all else, the clone and its outline stay what they are. -/
theorem clone_independent (hclosed : s.Closed) (h : s.Acyclic (ReflTransGen s.Holds n))
    (hpayload : ∀ m, ReflTransGen s.Holds n m → s.Separable m) :
    ∃ c s₁, clone n s = .ok c s₁ ∧
      (∀ u, ReflTransGen (Step (s.OfCopy c) (· < s.nodes.size)) s₁ u → s.Extends u ∧ s.SameOutline u n) ∧
      ∀ u, ReflTransGen (Step (fun _ => s.NotOfCopy s₁) fun m => s.nodes.size ≤ m ∧ m < s₁.nodes.size) s₁ u →
        s.KeepsBetween s₁ u ∧ s₁.SameOutline u c := by
  obtain ⟨c, s₁, hclone, hseparate⟩ := clone_separate h hpayload
  refine ⟨c, s₁, hclone, fun u hrun => ?_, fun u hrun => ?_⟩
  · have hu : (around s).Stands u :=
      stands_run (fun w hw v => outside_ofCopy (hseparate.new c .refl).1 hw) (fun _ => id) hseparate.stands hrun
    have hs := extends_of_stands hu
    exact ⟨hs, sameOutline_of_below h hs.size hs.objects fun m hm => (hpayload m hm).sameAt (h.exist m hm) hs⟩
  · have hspared : ∀ m, (between s s₁).encloses (.node m) → s.nodes.size ≤ m ∧ m < s₁.nodes.size := fun m hm =>
      ⟨Nat.le_of_not_lt hm.2, hm.1⟩
    have hu : (between s s₁).Stands u := stands_run (fun w _ v => outside_notOfCopy) hspared
      (stands_between hclosed hseparate.toExtends) hrun
    refine ⟨⟨fun m hge hlt => hu.node m ⟨hlt, Nat.not_lt_of_le hge⟩,
      fun o hge hlt => hu.object o ⟨hlt, Nat.not_lt_of_le hge⟩⟩, ?_⟩
    exact sameOutline_of_below hseparate.acyclic hu.nodes hu.objects fun m hm => hseparate.sameAt hu hm

/-! ## Twins, and a list for a type -/

theorem closed_withTwins : withTwins.Closed := .of_bounded (by decide) (by decide)

theorem separable_withTwins (m : NodeId) (hm : ReflTransGen withTwins.Holds 0 m) : withTwins.Separable m := by
  have htags : withTwins.Data (.object 2) := by
    refine data_object rfl fun w hw => ?_
    rcases List.mem_cons.mp hw with rfl | hw
    · exact data_scalar rfl
    · rw [List.mem_singleton.mp hw]
      exact data_scalar rfl
  rcases below_withTwins hm with rfl | rfl
  · have hattr : withTwins.Data (.object 0) := by
      refine data_object rfl fun w hw => ?_
      rcases List.mem_cons.mp hw with rfl | hw
      · exact htags
      · rw [List.mem_singleton.mp hw]
        exact data_scalar rfl
    exact ⟨.scalar rfl, htags, hattr⟩
  · exact ⟨.scalar rfl, data_scalar rfl, data_object rfl fun w hw => by cases hw⟩

/-- The store after the clone of the node that holds another twice. -/
def withTwinsCloned : Store :=
  { Store.empty with
    nodes := withTwins.nodes ++
      #[⟨.node, .text "root", .object 4, some [.node 3, .node 4], .object 5, none, .int (-1)⟩,
        ⟨.node, .text "leaf", .null, none, .object 8, some (.node 2), .int 0⟩,
        ⟨.node, .text "leaf", .null, none, .object 10, some (.node 2), .int 1⟩]
    objects := withTwins.objects ++
      #[.map [], .collection .list [.text "x", .int 3], .map [(.text "tags", .object 6)],
        .collection .list [.text "x", .int 3], .map [], .map [], .map [], .map []] }

theorem clone_withTwins_result : clone 0 withTwins = .ok 2 withTwinsCloned := by cbv

/-- The clone loses a child, and the list that is its value grows. In another run, the list that is
the value of the original grows. -/
theorem clone_withTwins_independent : ∃ s₁, clone 0 withTwins = .ok 2 s₁ ∧
    (∃ u, ReflTransGen (Step (withTwins.OfCopy 2) (· < 2)) s₁ u ∧
      u.object 4 = .collection .list [.text "x", .int 3, .text "y"] ∧ u.children 2 = [.node 3] ∧
      withTwins.Extends u ∧ withTwins.SameOutline u 0) ∧
    ∃ u, ReflTransGen (Step (fun _ => withTwins.NotOfCopy s₁) fun m => 2 ≤ m ∧ m < 5) s₁ u ∧
      u.object 2 = .collection .list [.text "x", .int 3, .text "y"] ∧
      withTwins.KeepsBetween s₁ u ∧ s₁.SameOutline u 2 := by
  obtain ⟨c, s₁, hclone, hcopy, hother⟩ := clone_independent closed_withTwins acyclic_withTwins separable_withTwins
  cases hclone.symm.trans clone_withTwins_result
  refine ⟨_, clone_withTwins_result, ?_, ?_⟩
  · have hpopped : Step (withTwins.OfCopy 2) (· < 2) withTwinsCloned (Run.after (pop 2 withTwinsCloned)) := by
      refine .event (.pop 2) fun v hv => Or.inr (Or.inl ?_)
      rw [List.mem_singleton.mp hv]
      decide
    have hgrown : Step (withTwins.OfCopy 2) (· < 2) (Run.after (pop 2 withTwinsCloned))
        ((Run.after (pop 2 withTwinsCloned)).updateObject 4
          fun _ => .collection .list [.text "x", .int 3, .text "y"]) := by
      refine .refill (Or.inr (Or.inl (by decide))) trivial fun v hv => Or.inl ?_
      revert v
      decide
    have hrun := (ReflTransGen.single hpopped).tail hgrown
    exact ⟨_, hrun, by cbv, by cbv, hcopy _ hrun⟩
  · have hgrown : Step (fun _ => withTwins.NotOfCopy withTwinsCloned) (fun m => 2 ≤ m ∧ m < 5) withTwinsCloned
        (withTwinsCloned.updateObject 2 fun _ => .collection .list [.text "x", .int 3, .text "y"]) := by
      refine .refill (Or.inl (by decide)) trivial fun v hv => Or.inl (Or.inl ?_)
      revert v
      decide
    have hrun := ReflTransGen.single hgrown
    exact ⟨_, hrun, by cbv, hother _ hrun⟩

/-- A node with a list for its type. -/
def withListType : Store :=
  { Store.empty with
    nodes := #[⟨.node, .object 1, .null, none, .object 0, none, .int (-1)⟩]
    objects := #[.map [], .collection .list [.text "x"]] }

/-- The store after the clone of the node with a list for its type. -/
def withListTypeCloned : Store :=
  { withListType with
    nodes := withListType.nodes.push ⟨.node, .object 1, .null, none, .object 3, none, .int (-1)⟩
    objects := withListType.objects ++ #[.map [], .map []] }

theorem acyclic_withListType : withListType.Acyclic (ReflTransGen withListType.Holds 0) :=
  acyclic_of_ordered (by decide) (by decide)

theorem below_withListType {m : NodeId} (h : ReflTransGen withListType.Holds 0 m) : m = 0 :=
  Nat.lt_one_iff.mp (acyclic_withListType.exist m h)

/-- The list that is the type grows. -/
def growType (u : Store) : Store := u.updateObject 1 fun _ => .collection .list [.text "x", .text "y"]

theorem step_growType {free : Store → Value → Prop} {spared : NodeId → Prop}
    (hlist : u.object 1 = .collection .list [.text "x"]) (hfree : free u (.object 1))
    (htexts : ∀ v, v.isLink = false → free u v) : Step free spared u u.growType := by
  refine .refill hfree (by rw [hlist]; trivial) fun v hv => htexts v ?_
  revert v
  decide

/-- When its list has grown, the outline of a node with the list for its type is not what it was. -/
theorem not_sameOutline_growType (houtline : s.outline n = .ok (.node [(.text "type", .object 1)] none))
    (hlist : s.object 1 = .collection .list [.text "x"]) (hsize : 1 < u.objects.size) :
    ¬ s.SameOutline u.growType n := by
  rintro ⟨-, hshown⟩
  have hsame := (hshown _ houtline (.object 1) (by simp [entryValues])).self
  rw [growType, object_updateObject_self _ _ hsize, hlist] at hsame
  cases hsame

/-- **A list for a type ties the clone to its original**, although the payload is plain data. The clone is
given its own map for a value, which shows the list of the original; when that list grows, the outline of the
original shows it, and so does that of the clone. -/
theorem mutable_type_not_independent :
    withListType.Closed ∧ withListType.Acyclic (ReflTransGen withListType.Holds 0) ∧
    (∀ m, ReflTransGen withListType.Holds 0 m →
      withListType.Data (withListType.node m).value ∧ withListType.Data (withListType.node m).attr) ∧
    ∃ s₁, clone 0 withListType = .ok 1 s₁ ∧
      (∃ u, ReflTransGen (Step (withListType.OfCopy 1) (· < 1)) s₁ u ∧ (u.node 1).value = .object 4 ∧
        .object 1 ∈ contained (u.object 4) ∧ Step (withListType.OfCopy 1) (· < 1) u u.growType ∧
          ¬ withListType.SameOutline u.growType 0) ∧
      Step (fun _ => withListType.NotOfCopy s₁) (fun m => 1 ≤ m ∧ m < 2) s₁ s₁.growType ∧
        ¬ s₁.SameOutline s₁.growType 1 := by
  have hclone : clone 0 withListType = .ok 1 withListTypeCloned := by cbv
  refine ⟨.of_bounded (by decide) (by decide), acyclic_withListType, fun m hm => ?_, _, hclone, ?_, ?_, ?_⟩
  · cases below_withListType hm
    exact ⟨data_scalar rfl, data_object rfl fun w hw => by cases hw⟩
  · -- the map that shows the clone becomes its value
    have hshown : Step (withListType.OfCopy 1) (· < 1) withListTypeCloned (Run.after (toMap 1 withListTypeCloned)) := by
      refine .event (.toMap 1) fun v hv => Or.inr (Or.inl ?_)
      rw [List.mem_singleton.mp hv]
      decide
    have hassigned : Step (withListType.OfCopy 1) (· < 1) (Run.after (toMap 1 withListTypeCloned))
        ((Run.after (toMap 1 withListTypeCloned)).updateNode 1 fun r => { r with value := .object 4 }) := by
      refine .event (.assign (.node 1) "value" (.object 4)) fun v hv => Or.inr (Or.inl ?_)
      revert v
      decide
    obtain ⟨u, hrun, hvalue, hmap, hlist, hsize⟩ : ∃ u,
        ReflTransGen (Step (withListType.OfCopy 1) (· < 1)) withListTypeCloned u ∧
        (u.node 1).value = .object 4 ∧ contained (u.object 4) = [.object 1, .text "type"] ∧
        u.object 1 = .collection .list [.text "x"] ∧ 1 < u.objects.size :=
      ⟨_, (ReflTransGen.single hshown).tail hassigned, by cbv, by cbv, by cbv, by decide⟩
    have hmem : Value.object 1 ∈ contained (u.object 4) := hmap ▸ List.mem_cons_self ..
    have hreached : Reaches u.leads [.node 1] (.object 1) := by
      refine .step (.step (v := .node 1) (w := .object 4) (.root (List.mem_singleton_self _)) ?_) hmem
      show Value.object 4 ∈ (u.node 1).held
      simp [NodeRecord.held, hvalue]
    have hgrown : Step (withListType.OfCopy 1) (· < 1) u u.growType :=
      step_growType hlist (Or.inr (Or.inr hreached)) fun v => Or.inl
    exact ⟨u, hrun, hvalue, hmem, hgrown, not_sameOutline_growType rfl rfl hsize⟩
  · exact step_growType rfl (Or.inl (by decide)) fun v hv => Or.inl (Or.inl hv)
  · exact not_sameOutline_growType rfl rfl (by decide)

end Store
end SyntaxTree
