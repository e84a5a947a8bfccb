import SyntaxTree.Proofs.Courses
import SyntaxTree.Proofs.Independence
import SyntaxTree.Proofs.Liveness

/-!
# `Proofs.MirroredCopies` — a deep copy leads where the original leads

What a deep copy makes mirrors what it was made from: the contents of a new object or node are the images of
the old contents, link by link, and cycles are no exception. An image is a new thing, or the very same where
there is nothing that could be changed (`OwnCopy`). Only the parent of a copied node is no image: it is the
parent of the original.

The proof follows the memory of copying. Whatever is remembered has its place; it mirrors its original as
soon as it is settled, and until then it is pending (`Mirrors`). Copying ends because it cannot go on without
remembering something new: with all that is there remembered, the only ways left are down through tuples and
sets, and of these none can hold itself (`Grounded`), since it was made of what was there before.
-/

namespace SyntaxTree
namespace Store

open Relation

variable {s b u u' : Store} {v w : Value} {o p : ObjectId} {n m : NodeId} {R R' : Value → Value → Prop}
  {new new' : Value → Prop}

/-! ## Images -/

/-- The value is its own copy: nothing in it is ever copied. -/
inductive OwnCopy (s : Store) : Value → Prop
  | scalar {v : Value} : v.isLink = false → OwnCopy s v
  | shared {o : ObjectId} : Copying.isShared (s.object o) → OwnCopy s (.object o)
  | tuple {o : ObjectId} {items : List Value} : s.object o = .collection .tuple items →
      (∀ v ∈ items, OwnCopy s v) → OwnCopy s (.object o)

/-- The value stands for the other one: by a relation between old and new things, or because it is its own
copy. -/
def Image (s : Store) (R : Value → Value → Prop) (v w : Value) : Prop := s.OwnCopy v ∧ w = v ∨ R v w

theorem Image.mono (h : s.Image R v w) (hR : ∀ v w, R v w → R' v w) : s.Image R' v w := h.imp_right (hR v w)

/-- The new thing holds the images of what the old one holds. -/
inductive Mirrored (s u : Store) (R : Value → Value → Prop) : Value → Value → Prop
  | object {o p : ObjectId} : Copying.isShared (s.object o) = false →
      List.Forall₂ (s.Image R) (contained (s.object o)) (contained (u.object p)) →
      Mirrored s u R (.object o) (.object p)
  | node {n m : NodeId} : (s.node n).Remade (s.Image R) (u.node m) → Mirrored s u R (.node n) (.node m)

/-- The value stands for the same in both stores. -/
def Unchanged (u u' : Store) : Value → Prop
  | .node n => u'.node n = u.node n
  | .object o => u'.object o = u.object o
  | _ => True

theorem Unchanged.refl (u : Store) (v : Value) : u.Unchanged u v := by
  cases v <;> first | rfl | trivial

theorem Unchanged.trans {t : Store} (h : t.Unchanged u v) (h' : u.Unchanged u' v) : t.Unchanged u' v := by
  cases v with
  | node n => exact Eq.trans h' h
  | object o => exact Eq.trans h' h
  | _ => trivial

theorem Extends.unchanged (h : u.Extends u') (hv : u.Has v) : u.Unchanged u' v := by
  cases v with
  | node n => exact h.node n hv
  | object o => exact h.object o hv
  | _ => trivial

theorem Extends.has (h : u.Extends u') (hv : u.Has v) : u'.Has v := by
  cases v with
  | node n => exact Nat.lt_of_lt_of_le hv h.size
  | object o => exact Nat.lt_of_lt_of_le hv h.objects
  | _ => exact hv

theorem extends_of_unchanged (h : ∀ x, u.Has x → u'.Has x ∧ u.Unchanged u' x) : u.Extends u' where
  size := Nat.le_of_not_lt fun hlt => Nat.lt_irrefl _ (h (.node u'.nodes.size) hlt).1
  node n hn := (h (.node n) hn).2
  objects := Nat.le_of_not_lt fun hlt => Nat.lt_irrefl _ (h (.object u'.objects.size) hlt).1
  object o ho := (h (.object o) ho).2

theorem has_updateObject (f : Object → Object) : (u.updateObject o f).Has v ↔ u.Has v := by
  cases v with
  | object p => rw [Has, Has, Store.updateObject, Array.size_modify]
  | _ => rfl

theorem has_updateNode (f : NodeRecord → NodeRecord) : (u.updateNode n f).Has v ↔ u.Has v := by
  cases v with
  | node m => rw [Has, Has, size_updateNode]
  | _ => rfl

theorem unchanged_updateObject (u : Store) (f : Object → Object) (hne : v ≠ .object o) :
    u.Unchanged (u.updateObject o f) v := by
  cases v with
  | object p => exact object_updateObject_of_ne u f fun heq => hne (congrArg Value.object heq)
  | node m => rfl
  | _ => trivial

theorem unchanged_updateNode (u : Store) (f : NodeRecord → NodeRecord) (hne : v ≠ .node n) :
    u.Unchanged (u.updateNode n f) v := by
  cases v with
  | node m => exact node_updateNode_of_ne u f fun heq => hne (congrArg Value.node heq)
  | object p => rfl
  | _ => trivial

/-- More links between old and new things do not matter, nor what else is changed. -/
theorem Mirrored.mono (h : Mirrored s u R v w) (hsame : u.Unchanged u' w) (hR : ∀ v w, R v w → R' v w) :
    Mirrored s u' R' v w := by
  cases h with
  | object hshared hparts =>
      refine .object hshared ?_
      rw [hsame]
      exact hparts.imp fun v w hvw => hvw.mono hR
  | node hmade =>
      refine .node ?_
      rw [hsame]
      exact hmade.mono fun v w hvw => hvw.mono hR

/-- The relation leads from old things to new ones, which mirror them. -/
structure Reflects (s u : Store) (new : Value → Prop) (R : Value → Value → Prop) : Prop where
  made : ∀ v w, R v w → s.Has v ∧ new w
  mirrored : ∀ v w, R v w → Mirrored s u R v w

/-! ## What is made of what -/

/-- The object is made last, of the other one among others. -/
def MadeOf (s : Store) (o p : ObjectId) : Prop :=
  Copying.isMadeLast (s.object o) = true ∧ Value.object p ∈ contained (s.object o)

/-- No tuple and no set is made of itself. -/
def Grounded (s : Store) : Prop := ∀ o, ¬ TransGen s.MadeOf o o

open Classical in
/-- How many objects a value can be made of. -/
noncomputable def layers (s : Store) : Value → Nat
  | .object o => ((Finset.range s.objects.size).filter fun p => ReflTransGen s.MadeOf o p).card
  | _ => 0

open Classical in
theorem layers_le (s : Store) (v : Value) : s.layers v ≤ s.objects.size := by
  cases v with
  | object o =>
      refine (Finset.card_filter_le _ _).trans ?_
      rw [Finset.card_range]
  | _ => exact Nat.zero_le _

open Classical in
/-- What something is made of has less layers. -/
theorem layers_lt (hgrounded : s.Grounded) (ho : o < s.objects.size)
    (hlast : Copying.isMadeLast (s.object o) = true) (hv : v ∈ contained (s.object o)) :
    s.layers v < s.layers (.object o) := by
  have hpos : 0 < s.layers (.object o) :=
    Finset.card_pos.mpr ⟨o, Finset.mem_filter.mpr ⟨Finset.mem_range.mpr ho, .refl⟩⟩
  cases v with
  | object p => exact card_reached_lt ho ⟨hlast, hv⟩ (hgrounded o)
  | _ => exact hpos

/-! ## What is remembered -/

theorem mem_things : v ∈ s.things ↔ s.Has v := by
  rw [things, List.mem_append, List.mem_map, List.mem_map]
  constructor
  · rintro (⟨n, hn, rfl⟩ | ⟨o, ho, rfl⟩)
    · exact List.mem_range.mp hn
    · exact List.mem_range.mp ho
  · intro hv
    cases v with
    | node n => exact Or.inl ⟨n, List.mem_range.mpr hv, rfl⟩
    | object o => exact Or.inr ⟨o, List.mem_range.mpr hv, rfl⟩
    | _ => exact hv.elim

theorem length_things (s : Store) : s.things.length = s.nodes.size + s.objects.size := by
  rw [things, List.length_append, List.length_map, List.length_map, List.length_range, List.length_range]

namespace Copying

variable {pending : Value → Prop} {c d : Copying} {k fuel : Nat}

/-- The one value is remembered as a copy of the other. -/
def Remembered (c : Copying) (v w : Value) : Prop := (v, w) ∈ c.copies

/-- What has no copy so far. -/
def uncopied (s : Store) (c : Copying) : Finset Value :=
  s.things.toFinset.filter fun v => c.copies.lookup v = none

theorem uncopied_subset (h : c.copies ⊆ d.copies) : d.uncopied s ⊆ c.uncopied s := by
  intro v hv
  obtain ⟨hthing, hnone⟩ := Finset.mem_filter.mp hv
  refine Finset.mem_filter.mpr ⟨hthing, List.lookup_eq_none_iff.mpr fun e he => ?_⟩
  exact List.lookup_eq_none_iff.mp hnone e (h he)

/-- With each new thing that is remembered there is less to be copied. -/
theorem card_uncopied_lt (hv : s.Has v) (hnone : c.copies.lookup v = none) (u : Store) (w : Value) :
    (uncopied s ⟨u, (v, w) :: c.copies⟩).card < (c.uncopied s).card := by
  refine Finset.card_lt_card (Finset.ssubset_iff_subset_ne.mpr ⟨uncopied_subset (List.subset_cons_self _ _), ?_⟩)
  intro heq
  have hmem : v ∈ c.uncopied s := Finset.mem_filter.mpr ⟨List.mem_toFinset.mpr (mem_things.mpr hv), hnone⟩
  rw [← heq] at hmem
  have hlookup := (Finset.mem_filter.mp hmem).2
  rw [List.lookup_cons_self] at hlookup
  cases hlookup

/-- While something has no copy, the number of such things is not zero. -/
theorem exists_fewer (hv : s.Has v) (hnone : c.copies.lookup v = none) (hk : (c.uncopied s).card ≤ k) :
    ∃ j, k = j + 1 := by
  have hmem : v ∈ c.uncopied s := Finset.mem_filter.mpr ⟨List.mem_toFinset.mpr (mem_things.mpr hv), hnone⟩
  exact Nat.exists_eq_succ_of_ne_zero (Nat.ne_of_gt (Nat.lt_of_lt_of_le (Finset.card_pos.mpr ⟨v, hmem⟩) hk))

theorem remembered_of_lookup (h : c.copies.lookup v = some w) : c.Remembered v w := by
  obtain ⟨before, after, heq, -⟩ := List.lookup_eq_some_iff.mp h
  rw [Remembered, heq]
  exact List.mem_append_right _ (List.mem_cons_self ..)

/-- From the store `b` copying has come so far: what is remembered has places that were made since, one for
each copy, and it mirrors what it was made from in `s`, unless it is pending. -/
structure Mirrors (s b : Store) (pending : Value → Prop) (c : Copying) : Prop where
  kept : b.Extends c.store
  made : ∀ v w, c.Remembered v w → s.Has v ∧ ¬ b.Has w ∧ c.store.Has w
  sole : ∀ v v' w, c.Remembered v w → c.Remembered v' w → v = v'
  settled : ∀ v w, c.Remembered v w → ¬ pending w → Mirrored s c.store c.Remembered v w

theorem mirrors_start (s b : Store) : Mirrors s b (fun _ => False) ⟨b, []⟩ where
  kept := .refl b
  made _ _ h := by cases h
  sole _ _ _ h := by cases h
  settled _ _ h := by cases h

/-- What is made and remembered is pending at first. -/
theorem Mirrors.remember (h : Mirrors s b pending c) (hu : c.store.Extends u) (hv : s.Has v)
    (hw : ¬ c.store.Has w) (hmade : u.Has w) :
    Mirrors s b (fun x => x = w ∨ pending x) ⟨u, (v, w) :: c.copies⟩ where
  kept := h.kept.trans hu
  made x y hxy := by
    rcases List.mem_cons.mp hxy with heq | hxy
    · cases heq
      exact ⟨hv, fun hb => hw (h.kept.has hb), hmade⟩
    · obtain ⟨hx, hnew, hy⟩ := h.made x y hxy
      exact ⟨hx, hnew, hu.has hy⟩
  sole x x' y hxy hxy' := by
    have hfresh {x : Value} (hx : c.Remembered x w) : False := hw (h.made x w hx).2.2
    rcases List.mem_cons.mp hxy with heq | hxy <;> rcases List.mem_cons.mp hxy' with heq' | hxy'
    · cases heq
      cases heq'
      rfl
    · cases heq
      exact (hfresh hxy').elim
    · cases heq'
      exact (hfresh hxy).elim
    · exact h.sole x x' y hxy hxy'
  settled x y hxy hnot := by
    rcases List.mem_cons.mp hxy with heq | hxy
    · cases heq
      exact absurd (Or.inl rfl) hnot
    · refine (h.settled x y hxy fun hp => hnot (Or.inr hp)).mono (hu.unchanged (h.made x y hxy).2.2) fun _ _ => ?_
      exact List.mem_cons_of_mem _

/-- What is pending is settled by giving it the images that it should hold. -/
theorem Mirrors.settle (h : Mirrors s b (fun x => x = w ∨ pending x) c) (hvw : c.Remembered v w)
    (hkept : b.Extends u) (hhas : ∀ x, c.store.Has x → u.Has x) (hothers : ∀ x, x ≠ w → c.store.Unchanged u x)
    (hmirrored : Mirrored s u c.Remembered v w) : Mirrors s b pending ⟨u, c.copies⟩ where
  kept := hkept
  made x y hxy := by
    obtain ⟨hx, hnew, hy⟩ := h.made x y hxy
    exact ⟨hx, hnew, hhas y hy⟩
  sole := h.sole
  settled x y hxy hnot := by
    by_cases hyw : y = w
    · subst hyw
      rw [h.sole x v y hxy hvw]
      exact hmirrored
    · exact (h.settled x y hxy fun hp => hp.elim hyw hnot).mono (hothers y hyw) fun _ _ => id

/-! ## The course of copying -/

/-- While copying goes on, the store grows and nothing is forgotten; no more than `k` things have no copy. -/
def mirroring (s b : Store) (pending : Value → Prop) (k : Nat) : Course where
  holds c := Mirrors s b pending c ∧ (c.uncopied s).card ≤ k
  later c d := c.store.Extends d.store ∧ c.copies ⊆ d.copies
  refl _ := ⟨.refl _, List.Subset.refl _⟩
  trans h h' := ⟨h.1.trans h'.1, List.Subset.trans h.2 h'.2⟩

/-- The step gives an image of the value. -/
abbrev GivesImage (s b : Store) (pending : Value → Prop) (k : Nat) (p : Step Value) (v : Value) : Prop :=
  (mirroring s b pending k).Gives p fun c w => s.Image c.Remembered v w

theorem stable_image (s b : Store) (pending : Value → Prop) (k : Nat) (v w : Value) :
    (mirroring s b pending k).Stable fun c => s.Image c.Remembered v w :=
  fun _ _ hlater h => h.mono fun _ _ hxy => hlater.2 hxy

/-- A step from `c` has come to an image of the value. -/
structure Comes (s b : Store) (pending : Value → Prop) (c : Copying) (v : Value) (r : Value × Copying) : Prop where
  mirrors : Mirrors s b pending r.2
  kept : c.store.Extends r.2.store
  copies : c.copies ⊆ r.2.copies
  image : s.Image r.2.Remembered v r.1

theorem Comes.gives {p : Step Value} (h : Comes s b pending c v (p.run c)) (hk : (c.uncopied s).card ≤ k) :
    (mirroring s b pending k).holds (p.run c).2 ∧ (mirroring s b pending k).later c (p.run c).2 ∧
      s.Image (p.run c).2.Remembered v (p.run c).1 :=
  ⟨⟨h.mirrors, (Finset.card_le_card (uncopied_subset h.copies)).trans hk⟩, ⟨h.kept, h.copies⟩, h.image⟩

section Steps

variable {copy : Value → Step Value}

/-- The copy of an object that gets its place first. -/
theorem comes_madeFirst (hc : Mirrors s b pending c) (ho : o < s.objects.size)
    (hnone : c.copies.lookup (.object o) = none) (hk : (c.uncopied s).card ≤ k + 1)
    (hcopy : ∀ v ∈ contained (s.object o), ∀ pending, GivesImage s b pending k (copy v) v)
    (hshared : isShared (s.object o) = false) (hlast : isMadeLast (s.object o) = false) :
    Comes s b pending c (.object o) ((ofObject copy o (s.object o)).run c) := by
  have hplace : c.store.objects.size < (c.store.addObject (s.object o)).objects.size := by
    rw [size_addObject]
    exact Nat.lt_succ_self _
  have hadd := Extends.addObject c.store (s.object o)
  have hstart := hc.remember (v := .object o) (w := .object c.store.objects.size) hadd ho (Nat.lt_irrefl _) hplace
  have hfewer := card_uncopied_lt (s := s) (v := .object o) ho hnone (c.store.addObject (s.object o))
    (.object c.store.objects.size)
  obtain ⟨⟨hc', -⟩, ⟨hlater, hcopies⟩, hmade⟩ :=
    Course.gives_contents (stable_image s b _ k) hshared (fun v hv => hcopy v hv _) _ ⟨hstart, by omega⟩
  generalize hrun : (contents copy (s.object o)).run _ = result at hc' hlater hcopies hmade
  obtain ⟨made, c'⟩ := result
  rw [run_madeFirst hshared hlast hrun]
  have hplace' : c.store.objects.size < c'.store.objects.size := Nat.lt_of_lt_of_le hplace hlater.objects
  have hkept : c.store.Extends (c'.store.updateObject c.store.objects.size fun _ => made) :=
    (hadd.trans hlater).updateObject (Nat.le_refl _) _
  have hremembered : c'.Remembered (.object o) (.object c.store.objects.size) := hcopies (List.mem_cons_self ..)
  have hself : Mirrored s (c'.store.updateObject c.store.objects.size fun _ => made) c'.Remembered (.object o)
      (.object c.store.objects.size) := by
    refine .object hshared ?_
    rw [object_updateObject_self c'.store _ hplace']
    exact hmade.parts
  refine ⟨hc'.settle hremembered (hc.kept.trans hkept) (fun x => (has_updateObject _).mpr)
    (fun x => unchanged_updateObject _ _) hself, hkept, ?_, Or.inr hremembered⟩
  exact List.Subset.trans (List.subset_cons_self _ _) hcopies

/-- The copy of a node, which gets its place first, too. -/
theorem comes_ofNode (hc : Mirrors s b pending c) (hn : n < s.nodes.size)
    (hnone : c.copies.lookup (.node n) = none) (hk : (c.uncopied s).card ≤ k + 1)
    (hcopy : ∀ pending, ∀ v ∈ (s.node n).nodes.getD [] ++ [(s.node n).type, (s.node n).value, (s.node n).attr,
      (s.node n).hint], GivesImage s b pending k (copy v) v) :
    Comes s b pending c (.node n) ((ofNode copy n (s.node n)).run c) := by
  have hplace : c.store.nodes.size < (c.store.addNode (s.node n)).nodes.size := by
    rw [size_addNode]
    exact Nat.lt_succ_self _
  have hadd := Extends.addNode c.store (s.node n)
  have hstart := hc.remember (v := .node n) (w := .node c.store.nodes.size) hadd hn (Nat.lt_irrefl _) hplace
  have hfewer := card_uncopied_lt (s := s) (v := .node n) hn hnone (c.store.addNode (s.node n))
    (.node c.store.nodes.size)
  obtain ⟨⟨hc', -⟩, ⟨hlater, hcopies⟩, hmade⟩ :=
    Course.gives_nodeContents (stable_image s b _ k) (hcopy _) _ ⟨hstart, by omega⟩
  generalize hrun : (nodeContents copy (s.node n)).run _ = result at hc' hlater hcopies hmade
  obtain ⟨made, c'⟩ := result
  rw [run_ofNode hrun]
  have hplace' : c.store.nodes.size < c'.store.nodes.size := Nat.lt_of_lt_of_le hplace hlater.size
  have hkept : c.store.Extends (c'.store.updateNode c.store.nodes.size fun _ => made) :=
    (hadd.trans hlater).updateNode (Nat.le_refl _) _
  have hremembered : c'.Remembered (.node n) (.node c.store.nodes.size) := hcopies (List.mem_cons_self ..)
  have hself : Mirrored s (c'.store.updateNode c.store.nodes.size fun _ => made) c'.Remembered (.node n)
      (.node c.store.nodes.size) := by
    refine .node ?_
    rw [node_updateNode_self c'.store _ hplace']
    exact hmade
  refine ⟨hc'.settle hremembered (hc.kept.trans hkept) (fun x => (has_updateNode _).mpr)
    (fun x => unchanged_updateNode _ _) hself, hkept, ?_, Or.inr hremembered⟩
  exact List.Subset.trans (List.subset_cons_self _ _) hcopies

/-- A tuple with the items of before is its own copy: none of them is a new thing. -/
theorem ownCopy_of_isOwnCopy (hb : s.Extends b) (hc : Mirrors s b pending c) {made : Object}
    (hown : isOwnCopy (s.object o) made = true)
    (hmade : (s.object o).Remade (s.Image c.Remembered) made) :
    s.OwnCopy (.object o) := by
  unfold isOwnCopy at hown
  split at hown
  · next items copies hx =>
      rw [hx] at hmade
      cases of_decide_eq_true hown
      refine .tuple hx fun v hv => ?_
      rcases List.forall₂_same.mp hmade.parts v hv with ⟨hown, -⟩ | hremembered
      · exact hown
      · obtain ⟨hold, hnew, -⟩ := hc.made v v hremembered
        exact absurd (hb.has hold) hnew
  · cases hown

/-- The copy of an object that is made of ready parts. -/
theorem comes_madeLast (hb : s.Extends b) (hc : Mirrors s b pending c) (ho : o < s.objects.size)
    (hk : (c.uncopied s).card ≤ k)
    (hcopy : ∀ v ∈ contained (s.object o), GivesImage s b pending k (copy v) v)
    (hshared : isShared (s.object o) = false) (hlast : isMadeLast (s.object o) = true) :
    Comes s b pending c (.object o) ((ofObject copy o (s.object o)).run c) := by
  obtain ⟨⟨hc', -⟩, ⟨hlater, hcopies⟩, hmade⟩ :=
    Course.gives_contents (stable_image s b _ k) hshared hcopy _ ⟨hc, hk⟩
  generalize hrun : (contents copy (s.object o)).run c = result at hc' hlater hcopies hmade
  obtain ⟨made, c'⟩ := result
  rcases run_madeLast (o := o) hshared hlast hrun with ⟨earlier, hearlier, hrun⟩ | ⟨hown, hrun⟩ | hrun
  · rw [hrun]
    exact ⟨hc', hlater, hcopies, Or.inr (remembered_of_lookup hearlier)⟩
  · rw [hrun]
    exact ⟨hc', hlater, hcopies, Or.inl ⟨ownCopy_of_isOwnCopy hb hc' hown hmade, rfl⟩⟩
  · rw [hrun]
    have hplace : c'.store.objects.size < (c'.store.addObject made).objects.size := by
      rw [size_addObject]
      exact Nat.lt_succ_self _
    have hadd := Extends.addObject c'.store made
    have hstart := hc'.remember (v := .object o) (w := .object c'.store.objects.size) hadd ho
      (Nat.lt_irrefl _) hplace
    have hself : Mirrored s (c'.store.addObject made)
        (Remembered ⟨c'.store.addObject made, (.object o, .object c'.store.objects.size) :: c'.copies⟩)
        (.object o) (.object c'.store.objects.size) := by
      refine .object hshared ?_
      rw [object_addObject_self]
      exact hmade.parts.imp fun v w hvw => hvw.mono fun _ _ => List.mem_cons_of_mem _
    exact ⟨hstart.settle (List.mem_cons_self ..) (hc'.kept.trans hadd) (fun _ => id) (fun x _ => .refl _ x) hself,
      hlater.trans hadd, List.Subset.trans hcopies (List.subset_cons_self _ _), Or.inr (List.mem_cons_self ..)⟩

/-- **The copy of an object is an image of it**, if that is so of its parts. -/
theorem comes_ofObject (hgrounded : s.Grounded) (hb : s.Extends b) (hc : Mirrors s b pending c)
    (ho : o < s.objects.size) (hnone : c.copies.lookup (.object o) = none) (hk : (c.uncopied s).card ≤ k)
    (hcopy : ∀ j pending, ∀ v ∈ contained (s.object o),
      j * (s.objects.size + 2) + s.layers v < k * (s.objects.size + 2) + s.layers (.object o) →
        GivesImage s b pending j (copy v) v) :
    Comes s b pending c (.object o) ((ofObject copy o (s.object o)).run c) := by
  cases hshared : isShared (s.object o) with
  | true =>
      rw [ofObject, if_pos hshared]
      exact ⟨hc, .refl _, List.Subset.refl _, Or.inl ⟨.shared hshared, rfl⟩⟩
  | false =>
      cases hlast : isMadeLast (s.object o) with
      | true =>
          refine comes_madeLast hb hc ho hk (fun v hv => hcopy k pending v hv ?_) hshared hlast
          exact Nat.add_lt_add_left (layers_lt hgrounded ho hlast hv) _
      | false =>
          obtain ⟨j, rfl⟩ := exists_fewer (v := .object o) ho hnone hk
          refine comes_madeFirst hc ho hnone hk (fun v hv pending => hcopy j pending v hv ?_) hshared hlast
          have hle := s.layers_le v
          rw [Nat.succ_mul]
          omega

end Steps

/-- **A copy is an image**, if there are enough levels for what has no copy so far. -/
theorem gives_image (hclosed : s.Closed) (hgrounded : s.Grounded) (hb : s.Extends b) (hv : s.Known v)
    (hfuel : k * (s.objects.size + 2) + s.layers v < fuel) : GivesImage s b pending k (within fuel v) v := by
  induction fuel generalizing k pending v with
  | zero => exact absurd hfuel (Nat.not_lt_zero _)
  | succ fuel ih =>
      intro c ⟨hc, hk⟩
      refine Comes.gives ?_ hk
      have hstay (hown : s.OwnCopy v) : Comes s b pending c v (v, c) :=
        ⟨hc, .refl _, List.Subset.refl _, Or.inl ⟨hown, rfl⟩⟩
      rw [run_within]
      cases hearlier : c.copies.lookup v with
      | some w => exact ⟨hc, .refl _, List.Subset.refl _, Or.inr (remembered_of_lookup hearlier)⟩
      | none =>
          cases v with
          | node n =>
              have hn : n < s.nodes.size := hv.resolve_left Bool.noConfusion
              have hsame : c.store.node n = s.node n := (hb.trans hc.kept).node n hn
              obtain ⟨j, rfl⟩ := exists_fewer (v := .node n) hn hearlier hk
              show Comes s b pending c (.node n) ((ofNode (within fuel) n (c.store.node n)).run c)
              rw [hsame]
              refine comes_ofNode hc hn hearlier hk fun pending v hv => ?_
              refine ih ((hclosed.node n).held (List.mem_append_left _ hv)) ?_
              have hle := s.layers_le v
              rw [Nat.succ_mul] at hfuel
              omega
          | object o =>
              have ho : o < s.objects.size := hv.resolve_left Bool.noConfusion
              have hsame : c.store.object o = s.object o := (hb.trans hc.kept).object o ho
              show Comes s b pending c (.object o) ((ofObject (within fuel) o (c.store.object o)).run c)
              rw [hsame]
              refine comes_ofObject hgrounded hb hc ho hearlier hk fun j pending v hv hless => ?_
              exact ih (hclosed.object o v hv) (Nat.lt_of_lt_of_le hless (Nat.le_of_lt_succ hfuel))
          | _ => exact hstay (.scalar rfl)

end Copying

/-! ## Deep copies -/

theorem copyDepth_mono (hb : s.Extends b) : s.copyDepth ≤ b.copyDepth := by
  have hnodes := hb.size
  have hobjects := hb.objects
  exact Nat.mul_le_mul (by omega) (by omega)

/-- **A deep copy mirrors the original.** It never fails, and makes new things; a relation leads from the old
things to their copies, which hold the images of what the old ones hold. -/
theorem copy_mirrored (hclosed : s.Closed) (hgrounded : s.Grounded) (hb : s.Extends b) (hv : s.Known v) :
    ∃ w u R, copy v b = .ok w u ∧ b.Extends u ∧ Reflects s u (fun x => ¬ b.Has x ∧ u.Has x) R ∧
      s.Image R v w := by
  have hdepth : (s.nodes.size + s.objects.size) * (s.objects.size + 2) + s.layers v < b.copyDepth := by
    refine Nat.lt_of_lt_of_le ?_ (copyDepth_mono hb)
    have hle := s.layers_le v
    rw [copyDepth, Nat.add_mul (s.nodes.size + s.objects.size)]
    omega
  have hstart := Copying.mirrors_start s b
  have hleft : ((⟨b, []⟩ : Copying).uncopied s).card ≤ s.nodes.size + s.objects.size :=
    (Finset.card_filter_le _ _).trans ((List.toFinset_card_le _).trans (Nat.le_of_eq s.length_things))
  have hgives : Copying.GivesImage s b (fun _ => False) _ _ v := Copying.gives_image hclosed hgrounded hb hv hdepth
  obtain ⟨⟨hc, -⟩, ⟨hextends, -⟩, himage⟩ := hgives _ ⟨hstart, hleft⟩
  refine ⟨_, _, _, copy_eq b v, hextends, ⟨hc.made, fun v w hvw => hc.settled v w hvw id⟩, himage⟩

end Store
end SyntaxTree
