import Mathlib.Data.Finset.Card
import Mathlib.Data.Finset.Prod
import SyntaxTree.Store.Equality

/-!
# `Proofs.Comparison` — comparing without a guard

A comparison keeps the pairs of objects that it is inside of, and gives up when one of them comes back.
`equalUpTo` is the comparison without this guard, down to a depth. It is the one to prove things about, since
what it says of parts does not depend on what they are parts of. Where it ends, the guarded comparison ends
in the same way (`equal_of_equalUpTo`): a pair that came back would have to be compared at a smaller depth
than the one it needs.

All that is used of the ways in which lists, sets and maps are compared is that they ask for the equality of
parts and pass faults on. So an equality of parts that answers more, and nothing differently, makes an
equality of objects that answers more (`refines_equalObjects`).
-/

namespace SyntaxTree

/-! ## Answers that stay -/

/-- `q` answers as `p` does, if that answers. -/
def Refines {α : Type} (p q : Except Fault α) : Prop := ∀ a, p = .ok a → q = .ok a

namespace Refines

variable {α β : Type} {p q : Except Fault α}

theorem refl (p : Except Fault α) : Refines p p := fun _ h => h

theorem trans {r : Except Fault α} (h : Refines p q) (h' : Refines q r) : Refines p r :=
  fun a ha => h' a (h a ha)

theorem of_error (e : Fault) (q : Except Fault α) : Refines (.error e) q := fun _ h => (by cases h)

theorem bind {f g : α → Except Fault β} (h : Refines p q) (hnext : ∀ a, Refines (f a) (g a)) :
    Refines (p >>= f) (q >>= g) := by
  cases p with
  | error e => exact of_error e _
  | ok a =>
      rw [h a rfl]
      exact hnext a

theorem ite {c : Prop} [Decidable c] {p' q' : Except Fault α} (h : Refines p q) (h' : Refines p' q') :
    Refines (if c then p else p') (if c then q else q') := by
  split
  · exact h
  · exact h'

end Refines

namespace Object

/-- What is compared of an object, if that is compared with another one. Trackers, wrappers, operations and objects from
elsewhere are equal to themselves only. -/
def parts : Object → List Value
  | .collection _ items => items
  | .map es => es.keys.map Key.value ++ es.values
  | .location l c => [l, c]
  | .position a b c => [a, b, c]
  | .matcher _ target => [target]
  | _ => []

end Object

namespace Store

theorem bind_ok {α β : Type} {x : Except Fault α} {f : α → Except Fault β} {a : α} (h : x = .ok a) :
    x >>= f = f a := by
  rw [h]
  rfl

/-- What ends with a value has done so at every step. -/
theorem exists_of_bind_ok {α β : Type} {x : Except Fault α} {f : α → Except Fault β} {b : β}
    (h : x >>= f = .ok b) : ∃ a, x = .ok a ∧ f a = .ok b := by
  cases x with
  | ok a => exact ⟨a, rfl, h⟩
  | error e => cases h

section Refines

variable {eq eq' : Value → Value → Except Fault Bool}

theorem refines_equalLists {as bs : List Value} (heq : ∀ a ∈ as, ∀ b ∈ bs, Refines (eq a b) (eq' a b)) :
    Refines (equalLists eq as bs) (equalLists eq' as bs) := by
  induction as generalizing bs with
  | nil => cases bs <;> exact .refl _
  | cons a as ih =>
      cases bs with
      | nil => exact .refl _
      | cons b bs =>
          refine (heq a (List.mem_cons_self ..) b (List.mem_cons_self ..)).bind fun _ => .ite (ih ?_) (.refl _)
          exact fun c hc d hd => heq c (List.mem_cons_of_mem _ hc) d (List.mem_cons_of_mem _ hd)

theorem refines_hasEqual {a : Value} {bs : List Value} (heq : ∀ b ∈ bs, Refines (eq a b) (eq' a b)) :
    Refines (hasEqual eq a bs) (hasEqual eq' a bs) := by
  induction bs with
  | nil => exact .refl _
  | cons b bs ih =>
      obtain ⟨hb, hbs⟩ := List.forall_mem_cons.mp heq
      exact hb.bind fun _ => .ite (.refl _) (ih hbs)

theorem refines_allEqualIn {bs as : List Value} (heq : ∀ a ∈ as, ∀ b ∈ bs, Refines (eq a b) (eq' a b)) :
    Refines (allEqualIn eq bs as) (allEqualIn eq' bs as) := by
  induction as with
  | nil => exact .refl _
  | cons a as ih =>
      obtain ⟨ha, has⟩ := List.forall_mem_cons.mp heq
      exact (refines_hasEqual ha).bind fun _ => .ite (ih has) (.refl _)

theorem refines_valueUnder {k : Value} {es : Entries Value}
    (heq : ∀ e ∈ es, Refines (eq k e.1.value) (eq' k e.1.value)) :
    Refines (valueUnder eq k es) (valueUnder eq' k es) := by
  induction es with
  | nil => exact .refl _
  | cons e es ih =>
      obtain ⟨he, hes⟩ := List.forall_mem_cons.mp heq
      exact he.bind fun _ => .ite (.refl _) (ih hes)

/-- What is found under a key is one of the values. -/
theorem mem_of_valueUnder {k b : Value} {es : Entries Value} (h : valueUnder eq k es = .ok (some b)) :
    ∃ e ∈ es, eq k e.1.value = .ok true ∧ e.2 = b := by
  induction es with
  | nil => cases h
  | cons e es ih =>
      rw [valueUnder] at h
      obtain ⟨r, hkey, h⟩ := exists_of_bind_ok h
      cases r with
      | true =>
          cases h
          exact ⟨e, List.mem_cons_self .., hkey, rfl⟩
      | false =>
          obtain ⟨f, hf, hfound⟩ := ih h
          exact ⟨f, List.mem_cons_of_mem _ hf, hfound⟩

theorem refines_entriesEqualIn {fs es : Entries Value}
    (heq : ∀ e ∈ es, ∀ f ∈ fs, Refines (eq e.1.value f.1.value) (eq' e.1.value f.1.value) ∧
      Refines (eq e.2 f.2) (eq' e.2 f.2)) :
    Refines (entriesEqualIn eq fs es) (entriesEqualIn eq' fs es) := by
  induction es with
  | nil => exact .refl _
  | cons e es ih =>
      obtain ⟨he, hes⟩ := List.forall_mem_cons.mp heq
      intro r h
      rw [entriesEqualIn] at h ⊢
      obtain ⟨found, hunder, h⟩ := exists_of_bind_ok h
      rw [bind_ok (refines_valueUnder (fun f hf => (he f hf).1) _ hunder)]
      cases found with
      | none => exact h
      | some b =>
          obtain ⟨f, hf, -, rfl⟩ := mem_of_valueUnder hunder
          exact ((he f hf).2.bind fun _ => .ite (ih hes) (.refl _)) r h

/-- **An equality of parts that answers more answers more about objects.** -/
theorem refines_equalObjects {x y : Object} (heq : ∀ a ∈ x.parts, ∀ b ∈ y.parts, Refines (eq a b) (eq' a b)) :
    Refines (equalObjects eq x y) (equalObjects eq' x y) := by
  unfold equalObjects
  split
  · exact .ite (refines_equalLists heq) (.refl _)
  · exact refines_equalLists heq
  · exact .ite (refines_allEqualIn heq) (.refl _)
  · exact .ite (refines_allEqualIn heq) (.refl _)
  · exact .ite (refines_allEqualIn heq) (.refl _)
  · exact .ite (refines_allEqualIn heq) (.refl _)
  · next es fs =>
      have hkey {es : Entries Value} {e : Key × Value} (he : e ∈ es) : e.1.value ∈ (Object.map es).parts :=
        List.mem_append_left _ (List.mem_map_of_mem (List.mem_map_of_mem he))
      have hvalue {es : Entries Value} {e : Key × Value} (he : e ∈ es) : e.2 ∈ (Object.map es).parts :=
        List.mem_append_right _ (List.mem_map_of_mem he)
      refine .ite (refines_entriesEqualIn fun e he f hf => ⟨?_, ?_⟩) (.refl _)
      · exact heq _ (hkey he) _ (hkey hf)
      · exact heq _ (hvalue he) _ (hvalue hf)
  · exact refines_equalLists heq
  · exact refines_equalLists heq
  · exact .ite (heq _ (List.mem_singleton_self _) _ (List.mem_singleton_self _)) (.refl _)
  · exact .refl _
  · exact .refl _

end Refines

section Answers

variable {answer : Value → Value → Bool}

theorem equalLists_answers (as bs : List Value) : ∃ r, equalLists (fun a b => .ok (answer a b)) as bs = .ok r := by
  induction as generalizing bs with
  | nil => cases bs <;> exact ⟨_, rfl⟩
  | cons a as ih =>
      cases bs with
      | nil => exact ⟨_, rfl⟩
      | cons b bs =>
          rw [equalLists, bind_ok rfl]
          split
          · exact ih bs
          · exact ⟨_, rfl⟩

theorem hasEqual_answers (a : Value) (bs : List Value) :
    ∃ r, hasEqual (fun a b => .ok (answer a b)) a bs = .ok r := by
  induction bs with
  | nil => exact ⟨_, rfl⟩
  | cons b bs ih =>
      rw [hasEqual, bind_ok rfl]
      split
      · exact ⟨_, rfl⟩
      · exact ih

theorem allEqualIn_answers (as bs : List Value) :
    ∃ r, allEqualIn (fun a b => .ok (answer a b)) bs as = .ok r := by
  induction as with
  | nil => exact ⟨_, rfl⟩
  | cons a as ih =>
      obtain ⟨r, hr⟩ : ∃ r, hasEqual (fun a b => .ok (answer a b)) a bs = .ok r := hasEqual_answers a bs
      rw [allEqualIn, bind_ok hr]
      split
      · exact ih
      · exact ⟨_, rfl⟩

theorem valueUnder_answers (k : Value) (es : Entries Value) :
    ∃ r, valueUnder (fun a b => .ok (answer a b)) k es = .ok r := by
  induction es with
  | nil => exact ⟨_, rfl⟩
  | cons e es ih =>
      rw [valueUnder, bind_ok rfl]
      split
      · exact ⟨_, rfl⟩
      · exact ih

theorem entriesEqualIn_answers (es fs : Entries Value) :
    ∃ r, entriesEqualIn (fun a b => .ok (answer a b)) fs es = .ok r := by
  induction es with
  | nil => exact ⟨_, rfl⟩
  | cons e es ih =>
      obtain ⟨found, hfound⟩ : ∃ found, valueUnder (fun a b => .ok (answer a b)) e.1.value fs = .ok found :=
        valueUnder_answers e.1.value fs
      rw [entriesEqualIn, bind_ok hfound]
      cases found with
      | none => exact ⟨_, rfl⟩
      | some b =>
          dsimp only
          rw [bind_ok rfl]
          split
          · exact ih
          · exact ⟨_, rfl⟩

theorem ite_answers {c : Prop} [Decidable c] {p q : Except Fault Bool} (hp : ∃ r, p = .ok r) (hq : ∃ r, q = .ok r) :
    ∃ r, (if c then p else q) = .ok r := by
  split
  · exact hp
  · exact hq

/-- **Objects are compared to the end if their parts are.** -/
theorem equalObjects_answers {eq : Value → Value → Except Fault Bool} {x y : Object}
    (h : ∀ a ∈ x.parts, ∀ b ∈ y.parts, ∃ r, eq a b = .ok r) : ∃ r, equalObjects eq x y = .ok r := by
  choose! answer hanswer using h
  obtain ⟨r, hr⟩ : ∃ r, equalObjects (fun a b => .ok (answer a b)) x y = .ok r := by
    unfold equalObjects
    split
    · exact ite_answers (equalLists_answers _ _) ⟨_, rfl⟩
    · exact equalLists_answers _ _
    -- sets and frozen sets in four ways
    · exact ite_answers (allEqualIn_answers _ _) ⟨_, rfl⟩
    · exact ite_answers (allEqualIn_answers _ _) ⟨_, rfl⟩
    · exact ite_answers (allEqualIn_answers _ _) ⟨_, rfl⟩
    · exact ite_answers (allEqualIn_answers _ _) ⟨_, rfl⟩
    · exact ite_answers (entriesEqualIn_answers _ _) ⟨_, rfl⟩
    · exact equalLists_answers _ _
    · exact equalLists_answers _ _
    · exact ite_answers ⟨_, rfl⟩ ⟨_, rfl⟩
    · exact ⟨_, rfl⟩
    · exact ⟨_, rfl⟩
  refine ⟨r, refines_equalObjects (fun a ha b hb r hr => ?_) r hr⟩
  cases hr
  exact hanswer a ha b hb

end Answers

/-- Enough depth for each of some things is enough for all. -/
theorem exists_enough {α : Type} {P : Nat → α → Prop} (hmono : ∀ {k l a}, k ≤ l → P k a → P l a) {as : List α}
    (h : ∀ a ∈ as, ∃ k, P k a) : ∃ k, ∀ a ∈ as, P k a := by
  induction as with
  | nil => exact ⟨0, fun a ha => by cases ha⟩
  | cons a as ih =>
      obtain ⟨⟨k, hk⟩, has⟩ := List.forall_mem_cons.mp h
      obtain ⟨l, hl⟩ := ih has
      exact ⟨max k l, List.forall_mem_cons.mpr ⟨hmono (Nat.le_max_left k l) hk,
        fun b hb => hmono (Nat.le_max_right k l) (hl b hb)⟩⟩

/-! ## Without the guard -/

/-- Equality down to a depth, whatever is being compared already. -/
def equalUpTo (s : Store) : Nat → Value → Value → Except Fault Bool
  | 0, _, _ => .error .endless
  | depth + 1, a, b =>
    match s.object? a, s.object? b with
    | some x, some y =>
      if a = b then .ok true
      else equalObjects (fun c d => if c = d then .ok true else equalUpTo s depth c d) x y
    | _, _ => .ok (a.equalScalar b)

/-- Equality of parts down to a depth: a thing equals itself, whatever it holds. -/
def partUpTo (s : Store) (depth : Nat) (a b : Value) : Except Fault Bool :=
  if a = b then .ok true else s.equalUpTo depth a b

variable {s : Store} {a b : Value} {k : Nat}

theorem partUpTo_self (s : Store) (k : Nat) (a : Value) : s.partUpTo k a a = .ok true := if_pos rfl

/-- Different objects are compared by their parts. -/
theorem equalUpTo_object {o p : ObjectId} (hne : o ≠ p) :
    s.equalUpTo (k + 1) (.object o) (.object p) =
      equalObjects (s.partUpTo k) (s.object o) (s.object p) :=
  if_neg fun h => hne (Value.object.inj h)

/-- Anything else is compared as a scalar. -/
theorem equalUpTo_scalar (h : s.object? a = none ∨ s.object? b = none) :
    s.equalUpTo (k + 1) a b = .ok (a.equalScalar b) := by
  rw [equalUpTo]
  rcases h with h | h
  · rw [h]
  · rw [h]
    cases s.object? a <;> rfl

/-- More depth does not change an answer. -/
theorem refines_equalUpTo_succ (s : Store) (k : Nat) (a b : Value) :
    Refines (s.equalUpTo k a b) (s.equalUpTo (k + 1) a b) := by
  induction k generalizing a b with
  | zero => exact .of_error _ _
  | succ k ih =>
      rw [equalUpTo, equalUpTo]
      split
      · exact .ite (.refl _) (refines_equalObjects fun c _ d _ => .ite (.refl _) (ih c d))
      · exact .refl _

theorem refines_equalUpTo {l : Nat} (hkl : k ≤ l) (a b : Value) :
    Refines (s.equalUpTo k a b) (s.equalUpTo l a b) := by
  induction hkl with
  | refl => exact .refl _
  | step _ ih => exact ih.trans (refines_equalUpTo_succ s _ a b)

theorem refines_partUpTo {l : Nat} (hkl : k ≤ l) (a b : Value) :
    Refines (s.partUpTo k a b) (s.partUpTo l a b) := .ite (.refl _) (refines_equalUpTo hkl a b)

/-! ## With the guard -/

/-- The pairs that a comparison can be inside of: there are no more than pairs of objects. -/
theorem length_pending_le {pending : List (Value × Value)} (hnodup : pending.Nodup)
    (hmade : ∀ p ∈ pending, ∃ o q, p = (.object o, .object q) ∧ o < s.objects.size ∧ q < s.objects.size) :
    pending.length ≤ s.objects.size * s.objects.size := by
  classical
  have hsub : pending.toFinset ⊆ (Finset.range s.objects.size ×ˢ Finset.range s.objects.size).image
      fun p => (Value.object p.1, Value.object p.2) := by
    intro p hp
    obtain ⟨o, q, rfl, ho, hq⟩ := hmade p (List.mem_toFinset.mp hp)
    exact Finset.mem_image.mpr ⟨(o, q), Finset.mem_product.mpr
      ⟨Finset.mem_range.mpr ho, Finset.mem_range.mpr hq⟩, rfl⟩
  calc pending.length = pending.toFinset.card := (List.toFinset_card_of_nodup hnodup).symm
    _ ≤ _ := Finset.card_le_card hsub
    _ ≤ _ := Finset.card_image_le
    _ = s.objects.size * s.objects.size := by rw [Finset.card_product, Finset.card_range]

/-- What has not been made has nothing in it to compare. -/
theorem equalObjects_plain (eq : Value → Value → Except Fault Bool) (x : Object) :
    equalObjects eq .plain x = .ok false ∧ equalObjects eq x .plain = .ok false := by
  refine ⟨rfl, ?_⟩
  cases x with
  | collection shape items => cases shape <;> rfl
  | _ => rfl

/-- The guard is asked in vain: no pair that the comparison is inside of ends at the depth that is left. -/
theorem equalWithin_of_equalUpTo {r : Bool} (h : s.equalUpTo k a b = .ok r) {fuel : Nat}
    {pending : List (Value × Value)} (hpending : ∀ p ∈ pending, ∀ r, s.equalUpTo k p.1 p.2 ≠ .ok r)
    (hnodup : pending.Nodup)
    (hmade : ∀ p ∈ pending, ∃ o q, p = (.object o, .object q) ∧ o < s.objects.size ∧ q < s.objects.size)
    (hfuel : s.objects.size * s.objects.size < fuel + pending.length) :
    equalWithin s fuel pending a b = .ok r := by
  induction k generalizing a b r fuel pending with
  | zero => cases h
  | succ k ih =>
      have hshallower : ∀ p ∈ pending, ∀ r, s.equalUpTo k p.1 p.2 ≠ .ok r := fun p hp r hr =>
        hpending p hp r (refines_equalUpTo_succ s k _ _ r hr)
      by_cases hless : ∃ r', s.equalUpTo k a b = .ok r'
      · -- less depth is enough for the pair itself
        obtain ⟨r', hr'⟩ := hless
        have heq : r' = r := Except.ok.inj ((refines_equalUpTo_succ s k a b r' hr').symm.trans h)
        exact ih (heq ▸ hr') hshallower hnodup hmade hfuel
      have hlength := length_pending_le hnodup hmade
      obtain ⟨fuel, rfl⟩ : ∃ f, fuel = f + 1 := ⟨fuel - 1, by omega⟩
      rw [equalUpTo] at h
      rw [equalWithin]
      cases a with
      | object o =>
          cases b with
          | object q =>
              dsimp only [object?] at h ⊢
              by_cases hab : Value.object o = .object q
              · rwa [if_pos hab] at h ⊢
              have hnot : (Value.object o, Value.object q) ∉ pending := fun hmem =>
                hpending _ hmem r (by rw [equalUpTo]; exact h)
              rw [if_neg hab] at h
              rw [if_neg hab, if_neg hnot]
              by_cases hout : s.objects.size ≤ o ∨ s.objects.size ≤ q
              · -- one of the two has not been made
                rcases hout with ho | hq
                · rw [object_of_size_le s ho, (equalObjects_plain _ _).1] at h ⊢
                  exact h
                · rw [object_of_size_le s hq, (equalObjects_plain _ _).2] at h ⊢
                  exact h
              · obtain ⟨ho, hq⟩ := not_or.mp hout
                refine refines_equalObjects (fun c _ d _ => .ite (.refl _) fun r' hr' => ?_) r h
                refine ih hr' (fun p hp => ?_) (List.nodup_cons.mpr ⟨hnot, hnodup⟩) (fun p hp => ?_) ?_
                · rcases List.mem_cons.mp hp with rfl | hp
                  · exact fun r hr => hless ⟨r, hr⟩
                  · exact hshallower p hp
                · rcases List.mem_cons.mp hp with rfl | hp
                  · exact ⟨o, q, rfl, Nat.lt_of_not_le ho, Nat.lt_of_not_le hq⟩
                  · exact hmade p hp
                · rw [List.length_cons]
                  omega
          | _ => exact h
      | _ => exact h

/-- **A comparison that ends without the guard ends with it**, and answers the same. -/
theorem equal_of_equalUpTo {r : Bool} (h : s.equalUpTo k a b = .ok r) : s.equal a b = .ok r :=
  equalWithin_of_equalUpTo h (fun p hp => by cases hp) List.nodup_nil (fun p hp => by cases hp)
    (Nat.lt_succ_self _)

theorem samePart_of_partUpTo {r : Bool} (h : s.partUpTo k a b = .ok r) : s.samePart a b = .ok r := by
  rw [partUpTo] at h
  rw [samePart]
  split at h
  · next hab => rw [if_pos hab]; exact h
  · next hab => rw [if_neg hab]; exact equal_of_equalUpTo h

/-- A comparison with the guard does not say more than one without. -/
theorem equalUpTo_of_equalWithin {r : Bool} {fuel : Nat} {pending : List (Value × Value)}
    (h : equalWithin s fuel pending a b = .ok r) : s.equalUpTo fuel a b = .ok r := by
  induction fuel generalizing a b r pending with
  | zero => cases h
  | succ fuel ih =>
      rw [equalWithin] at h
      rw [equalUpTo]
      cases hx : s.object? a with
      | none =>
          rw [hx] at h
          exact h
      | some x =>
          cases hy : s.object? b with
          | none =>
              rw [hx, hy] at h
              exact h
          | some y =>
              rw [hx, hy] at h
              dsimp only at h ⊢
              by_cases hab : a = b
              · rwa [if_pos hab] at h ⊢
              · rw [if_neg hab] at h ⊢
                split at h
                · cases h
                · exact refines_equalObjects (fun c _ d _ => .ite (.refl _) fun r' hr' => ih hr') r h

/-- What is decided of parts is decided at one depth for all. -/
theorem partUpTo_of_samePart {r : Bool} (h : s.samePart a b = .ok r) :
    s.partUpTo (s.objects.size * s.objects.size + 1) a b = .ok r := by
  rw [samePart] at h
  rw [partUpTo]
  split at h
  · next heq => rwa [if_pos heq]
  · next hne =>
      rw [if_neg hne]
      exact equalUpTo_of_equalWithin h

end Store
end SyntaxTree
