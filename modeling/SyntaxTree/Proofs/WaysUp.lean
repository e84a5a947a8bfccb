import Mathlib.Data.List.Perm.Subperm
import SyntaxTree.Node.Search

/-!
# `Proofs.WaysUp` — searching from one to the next

A search goes through some values and stops at the first whose type a matcher accepts (`findFirst_cases`). The
search among ancestors is such a search as well, of the values on the way up, where the next one is known only
when the one before has been asked.

What is passed on the way up are nodes, and objects from elsewhere that have a type and a parent. The climb is
limited by the number of all nodes and objects. A way up that ends passes nothing twice, so that limit is never
reached (`WayUp.length_le`).
-/

namespace SyntaxTree.Store

variable {s : Store} {n : NodeId} {m v w : Value} {vs ws : List Value} {matcher : Matcher} {b : Bool}

/-! ## The first that passes -/

/-- The type of a value is known, and whether a matcher accepts it. -/
def Tested (s : Store) (matcher : Matcher) (v : Value) (b : Bool) : Prop :=
  ∃ type, s.typeOf v = .ok type ∧ s.accepts type matcher = .ok b

theorem findFirst_cons (h : s.Tested matcher v b) (vs : List Value) :
    s.findFirst matcher (v :: vs) = if b then .ok (some v) else s.findFirst matcher vs := by
  obtain ⟨type, htype, haccepts⟩ := h
  show (s.typeOf v >>= fun type => s.accepts type matcher >>= _) = _
  rw [htype]
  show (s.accepts type matcher >>= fun b => if b then .ok (some v) else s.findFirst matcher vs) = _
  rw [haccepts]
  rfl

/-- **The search stops at the first that passes.** -/
theorem findFirst_cases (h : ∀ v ∈ vs, ∃ b, s.Tested matcher v b) :
    (s.findFirst matcher vs = .ok none ∧ ∀ v ∈ vs, s.Tested matcher v false) ∨
      ∃ i v, s.findFirst matcher vs = .ok (some v) ∧ vs[i]? = some v ∧ s.Tested matcher v true ∧
        ∀ (j : Nat) (w : Value), j < i → vs[j]? = some w → s.Tested matcher w false := by
  induction vs with
  | nil => exact Or.inl ⟨rfl, fun v hv => absurd hv (by simp)⟩
  | cons v vs ih =>
      obtain ⟨b, hb⟩ := h v (List.mem_cons_self ..)
      rw [findFirst_cons hb]
      cases b with
      | true => exact Or.inr ⟨0, v, rfl, rfl, hb, fun j w hj => absurd hj (by omega)⟩
      | false =>
          rcases ih fun w hw => h w (List.mem_cons_of_mem _ hw) with ⟨hnone, hall⟩ | ⟨i, w, hfound, hi, hw, hbefore⟩
          · refine Or.inl ⟨hnone, fun w hw => ?_⟩
            rcases List.mem_cons.mp hw with rfl | hmem
            · exact hb
            · exact hall w hmem
          · refine Or.inr ⟨i + 1, w, hfound, hi, hw, fun j u hj hu => ?_⟩
            cases j with
            | zero =>
                obtain rfl : v = u := Option.some.inj hu
                exact hb
            | succ j => exact hbefore j u (by omega) hu

/-! ## Ways up through nodes and objects -/

/-- The way up from a value passes some values that have a type and a parent, and ends. -/
inductive WayUp (s : Store) : Value → List Value → Prop
  | root : WayUp s .null []
  | up {v w type : Value} {vs : List Value} : s.typeOf v = .ok type → s.parentOf v = .ok w → WayUp s w vs →
      WayUp s v (v :: vs)

theorem typeOf_null (s : Store) (type : Value) : s.typeOf .null ≠ .ok type := fun h => (by cases h)

theorem WayUp.unique (h : s.WayUp v vs) (h' : s.WayUp v ws) : vs = ws := by
  induction h generalizing ws with
  | root =>
      cases h' with
      | root => rfl
      | up htype _ _ => exact absurd htype (typeOf_null s _)
  | up htype hparent _ ih =>
      cases h' with
      | root => exact absurd htype (typeOf_null s _)
      | up _ hparent' hws =>
          obtain rfl := Except.ok.inj (hparent.symm.trans hparent')
          rw [ih hws]

/-- Everything on a way up begins a part of it. -/
theorem WayUp.of_mem (h : s.WayUp v vs) (hw : w ∈ vs) : ∃ ws, s.WayUp w (w :: ws) ∧ (w :: ws).Sublist vs := by
  induction h with
  | root => cases hw
  | @up v u type vs htype hparent hvs ih =>
      rcases List.mem_cons.mp hw with rfl | hmem
      · exact ⟨vs, .up htype hparent hvs, .refl _⟩
      · obtain ⟨ws, hws, hsub⟩ := ih hmem
        exact ⟨ws, hws, hsub.cons v⟩

/-- **A way up that ends passes nothing twice.** -/
theorem WayUp.nodup (h : s.WayUp v vs) : vs.Nodup := by
  induction h with
  | root => exact List.nodup_nil
  | @up v w type vs htype hparent hvs ih =>
      refine List.nodup_cons.mpr ⟨fun hmem => ?_, ih⟩
      obtain ⟨ws, hws, hsub⟩ := hvs.of_mem hmem
      -- the way up from `v` would be longer than itself
      have hsame := hws.unique (.up htype hparent hvs)
      have hlength := hsub.length_le
      rw [hsame, List.length_cons] at hlength
      omega

/-- What has not been made has no parent. -/
theorem parentValue_of_size_le (s : Store) (hn : s.nodes.size ≤ n) : s.parentValue n = .null := by
  rw [parentValue, node_of_size_le s hn]
  rfl

/-- The values that can be passed by a way up and left again. -/
def places (s : Store) : List Value :=
  (List.range s.nodes.size).map .node ++ (List.range s.objects.size).map .object

/-- What has a type and a parent that is not null has been made. -/
theorem mem_places {type : Value} (htype : s.typeOf v = .ok type) (hparent : s.parentOf v = .ok w) (hw : w ≠ .null) :
    v ∈ s.places := by
  cases v with
  | node n =>
      have hlt : n < s.nodes.size := by
        refine Nat.lt_of_not_le fun hle => hw ?_
        obtain rfl := Except.ok.inj hparent
        exact parentValue_of_size_le s hle
      exact List.mem_append_left _ (List.mem_map_of_mem (List.mem_range.mpr hlt))
  | object o =>
      have hlt : o < s.objects.size := by
        refine lt_size_of_object fun hplain => ?_
        simp [typeOf, freeField, freeField?, object?, hplain, Object.freeFields?] at htype
      exact List.mem_append_right _ (List.mem_map_of_mem (List.mem_range.mpr hlt))
  | _ => cases htype

theorem WayUp.dropLast_subset (h : s.WayUp v vs) : vs.dropLast ⊆ s.places := by
  induction h with
  | root => exact fun u hu => absurd hu (by simp)
  | up htype hparent hvs ih =>
      intro u hu
      cases hvs with
      | root => exact absurd hu (by simp)
      | up htype' hparent' hvs' =>
          rw [List.dropLast_cons_cons] at hu
          rcases List.mem_cons.mp hu with rfl | hmem
          · exact mem_places htype hparent fun hnull => typeOf_null s _ (hnull ▸ htype')
          · exact ih hmem

/-- So a way up that ends is not longer than there are nodes and objects, and one more. -/
theorem WayUp.length_le (h : s.WayUp v vs) : vs.length ≤ s.nodes.size + s.objects.size + 1 := by
  have hnodup : vs.dropLast.Nodup := h.nodup.sublist vs.dropLast_sublist
  have hlength := (hnodup.subperm h.dropLast_subset).length_le
  simp only [places, List.length_dropLast, List.length_append, List.length_map, List.length_range] at hlength
  omega

theorem someAncestor_up {type : Value} {fuel : Nat} (htype : s.typeOf v = .ok type) (hparent : s.parentOf v = .ok w) :
    s.someAncestor matcher (fuel + 1) v = (do
      if ← s.accepts type matcher then .ok true else s.someAncestor matcher fuel w) := by
  have hstep : s.someAncestor matcher (fuel + 1) v = (do
      let type ← s.typeOf v
      if ← s.accepts type matcher then .ok true
      else
        let parent ← s.parentOf v
        s.someAncestor matcher fuel parent) := by
    cases v with
    | null => cases htype
    | _ => rfl
  rw [hstep, htype]
  show (s.accepts type matcher >>= fun b => if b then .ok true else s.parentOf v >>= s.someAncestor matcher fuel) = _
  rw [hparent]
  rfl

/-- **The climb is a search of what is on the way.** -/
theorem WayUp.someAncestor (h : s.WayUp v vs) (matcher : Matcher) {fuel : Nat} (hfuel : vs.length < fuel) :
    s.someAncestor matcher fuel v = (do
      let found ← s.findFirst matcher vs
      .ok found.isSome) := by
  induction h generalizing fuel with
  | root =>
      obtain ⟨fuel, rfl⟩ := Nat.exists_eq_succ_of_ne_zero (Nat.ne_of_gt hfuel)
      rfl
  | @up v w type vs htype hparent _ ih =>
      obtain ⟨fuel, rfl⟩ := Nat.exists_eq_succ_of_ne_zero (Nat.ne_of_gt (Nat.zero_lt_of_lt hfuel))
      have hrest := ih (Nat.lt_of_succ_lt_succ hfuel)
      cases haccepts : s.accepts type matcher with
      | error e =>
          rw [someAncestor_up htype hparent, haccepts]
          show _ = (s.typeOf v >>= fun type => s.accepts type matcher >>= _) >>= _
          rw [htype]
          show _ = (s.accepts type matcher >>= _) >>= _
          rw [haccepts]
          rfl
      | ok b =>
          rw [someAncestor_up htype hparent, findFirst_cons ⟨type, htype, haccepts⟩, haccepts]
          cases b with
          | true => rfl
          | false => exact hrest

theorem WayUp.isInside (h : s.WayUp (s.parentValue n) vs) (hm : s.compile m = .ok matcher) :
    s.isInside n m = (do
      let found ← s.findFirst matcher vs
      .ok found.isSome) := by
  have hlength := h.length_le
  rw [Store.isInside, hm]
  exact h.someAncestor matcher (by omega)

end SyntaxTree.Store
