import Mathlib.Data.Finset.Card
import SyntaxTree.Fault
import SyntaxTree.Value

/-!
# `Proofs.Depth` — recursions down to a depth

A recursion over values that may hold themselves is written down to a depth, and gives up below it. What is
asked at one depth is then a step `next` from what is asked at the depth before. As a rule, only an object
leads to further values, so a depth beyond the number of objects should be deep enough for all that has an
answer.

`Deepening.fixed` is that rule: at this depth one more level changes nothing, so what is asked there satisfies
the recursive equation itself, and nothing about depths is left in it. Answers only accumulate as the depth
grows. A depth that adds none is followed by no depth that does, and at most as many depths add one as there
are objects.
-/

namespace SyntaxTree

variable {α β : Type}

/-! ## Answers that stay -/

/-- An end was reached, be it a fault. -/
def Answered (p : Except Fault α) : Prop := p ≠ .error .endless

/-- `q` ends as `p` does, if that has an end. -/
def Settles (p q : Except Fault α) : Prop := Answered p → q = p

theorem answered_ok (a : α) : Answered (.ok a) := fun h => (by cases h)

namespace Settles

variable {p q : Except Fault α}

theorem refl (p : Except Fault α) : Settles p p := fun _ => rfl

theorem bind {f g : α → Except Fault β} (h : Settles p q) (hnext : ∀ a, Settles (f a) (g a)) :
    Settles (p >>= f) (q >>= g) := by
  intro hanswered
  cases p with
  | ok a =>
      rw [h (answered_ok a)]
      exact hnext a hanswered
  | error e =>
      have he : e ≠ .endless := fun he => hanswered (by rw [he]; rfl)
      rw [h fun herror => he (Except.error.inj herror)]
      rfl

theorem map {f : α → β} (h : Settles p q) : Settles (f <$> p) (f <$> q) := by
  intro hanswered
  cases p with
  | ok a => rw [h (answered_ok a)]
  | error e =>
      have he : e ≠ .endless := fun he => hanswered (by rw [he]; rfl)
      rw [h fun herror => he (Except.error.inj herror)]

end Settles

/-! ## Questions at a depth -/

/-- `ask` is the recursion by `next`, down to a depth, among `bound` objects. -/
structure Deepening (next : (Value → Except Fault α) → Value → Except Fault α)
    (ask : Nat → Value → Except Fault α) (bound : Nat) : Prop where
  /-- Below the depth there is no answer. -/
  zero : ∀ v, ask 0 v = .error .endless
  /-- Each depth asks the one before. -/
  succ : ∀ k, ask (k + 1) = next (ask k)
  /-- An answer is used and not looked behind. -/
  mono : ∀ f g, (∀ v, Settles (f v) (g v)) → ∀ v, Settles (next f v) (next g v)
  /-- What is not one of the objects leads to no other question. -/
  flat : ∀ f v, (∀ o, v = .object o → bound ≤ o) → Answered (next f v)

namespace Deepening

variable {next : (Value → Except Fault α) → Value → Except Fault α} {ask : Nat → Value → Except Fault α}
  {bound : Nat}

/-- An answer at one depth is the answer at the next. -/
theorem settles_succ (h : Deepening next ask bound) (k : Nat) (v : Value) :
    Settles (ask k v) (ask (k + 1) v) := by
  induction k generalizing v with
  | zero => exact fun hanswered => absurd (h.zero v) hanswered
  | succ k ih =>
      rw [h.succ (k + 1), h.succ k]
      exact h.mono _ _ (fun w => h.succ k ▸ ih w) v

open Classical in
/-- The objects about which there is an answer one level above a depth. -/
noncomputable def answered (ask : Nat → Value → Except Fault α) (bound k : Nat) : Finset Nat :=
  {o ∈ Finset.range bound | Answered (ask (k + 1) (.object o))}

theorem mem_answered {o k : Nat} :
    o ∈ answered ask bound k ↔ o < bound ∧ Answered (ask (k + 1) (.object o)) := by
  simp only [answered, Finset.mem_filter, Finset.mem_range]

theorem answered_subset (h : Deepening next ask bound) (k : Nat) :
    answered ask bound k ⊆ answered ask bound (k + 1) := by
  intro o ho
  obtain ⟨hlt, hanswered⟩ := mem_answered.mp ho
  refine mem_answered.mpr ⟨hlt, ?_⟩
  rw [h.settles_succ (k + 1) (.object o) hanswered]
  exact hanswered

theorem card_answered_le (ask : Nat → Value → Except Fault α) (bound k : Nat) :
    (answered ask bound k).card ≤ bound := by
  have hsub : answered ask bound k ⊆ Finset.range bound := fun o ho =>
    Finset.mem_range.mpr (mem_answered.mp ho).1
  have hle := Finset.card_le_card hsub
  rwa [Finset.card_range] at hle

/-- A level that adds no answers adds nothing at all. -/
theorem ask_succ (h : Deepening next ask bound) {k : Nat}
    (hcard : (answered ask bound k).card = (answered ask bound (k + 1)).card) :
    ask (k + 2) = ask (k + 1) := by
  have hsame : answered ask bound k = answered ask bound (k + 1) :=
    Finset.eq_of_subset_of_card_le (h.answered_subset k) (Nat.le_of_eq hcard.symm)
  funext v
  by_cases hanswered : Answered (ask (k + 1) v)
  · exact h.settles_succ (k + 1) v hanswered
  · -- only an object may be without an answer, and it still is
    have hobject : ∃ o, v = .object o ∧ o < bound := by
      refine Classical.by_contradiction fun hnone => hanswered ?_
      rw [h.succ k]
      exact h.flat _ v fun o ho => Nat.le_of_not_lt fun hlt => hnone ⟨o, ho, hlt⟩
    obtain ⟨o, rfl, hlt⟩ := hobject
    have hstill : ¬ Answered (ask (k + 2) (.object o)) := by
      intro hlater
      have hmem : o ∈ answered ask bound k := hsame ▸ mem_answered.mpr ⟨hlt, hlater⟩
      exact hanswered (mem_answered.mp hmem).2
    rw [not_not.mp hanswered, not_not.mp hstill]

/-- Nor does any level after it. -/
theorem card_answered_succ (h : Deepening next ask bound) (k : Nat)
    (hcard : (answered ask bound k).card = (answered ask bound (k + 1)).card) :
    (answered ask bound (k + 1)).card = (answered ask bound (k + 2)).card := by
  have hask : ask (k + 3) = ask (k + 2) := calc
    ask (k + 3) = next (ask (k + 2)) := h.succ (k + 2)
    _ = next (ask (k + 1)) := by rw [h.ask_succ hcard]
    _ = ask (k + 2) := (h.succ (k + 1)).symm
  unfold answered
  rw [hask]

/-- **Beyond the number of objects one more level changes nothing.** -/
theorem fixed (h : Deepening next ask bound) : ask (bound + 1) = next (ask (bound + 1)) := by
  have hgrows : Monotone fun k => (answered ask bound k).card :=
    monotone_nat_of_le_succ fun k => Finset.card_le_card (h.answered_subset k)
  have hstands : (answered ask bound bound).card = (answered ask bound (bound + 1)).card :=
    (Nat.stabilises_of_monotone hgrows (card_answered_le ask bound) h.card_answered_succ
      (Nat.le_succ bound)).symm
  rw [← h.succ (bound + 1)]
  exact (h.ask_succ hstands).symm

end Deepening

end SyntaxTree
