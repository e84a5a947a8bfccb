import Mathlib.Data.Finset.Card
import Mathlib.Logic.Relation
import SyntaxTree.Proofs.Neighbours

/-!
# `Proofs.Climbing` — when the way to the next node ends

`next` climbs from a node to its parent as long as the index of the node is the last position of the list.
The lists and links may form any graph, and a node may stand several times in one list, so the climb need
not end. It has no memory: where it goes on depends on the node it has come to alone, since the indices
that it reads on the way stay what they are (`nextWithin_held`). So it either ends or goes round, and it
has gone round once it has taken more steps than there are nodes.
-/

namespace SyntaxTree

/-! ## Ways through finitely many things -/

section Ways

open Relation

variable {step : Nat → Nat → Prop} {k bound a b : Nat}

/-- A way of `k` steps begins at `a`. -/
def Continues (step : Nat → Nat → Prop) : Nat → Nat → Prop
  | 0, _ => True
  | k + 1, a => ∃ b, step a b ∧ Continues step k b

/-- The way from `a` comes to something that leads back to itself. -/
def GoesRound (step : Nat → Nat → Prop) (a : Nat) : Prop := ∃ b, ReflTransGen step a b ∧ TransGen step b b

theorem GoesRound.head (h : GoesRound step b) (hab : step a b) : GoesRound step a := by
  obtain ⟨c, hbc, hc⟩ := h
  exact ⟨c, .head hab hbc, hc⟩

/-- A way that goes round can be continued by one that goes round. -/
theorem GoesRound.next (h : GoesRound step a) : ∃ b, step a b ∧ GoesRound step b := by
  obtain ⟨c, hac, hc⟩ := h
  rcases hac.cases_head with rfl | ⟨b, hab, hbc⟩
  · obtain ⟨b, hab, hba⟩ := TransGen.head'_iff.mp hc
    exact ⟨b, hab, a, hba, hc⟩
  · exact ⟨b, hab, c, hbc, hc⟩

theorem GoesRound.continues (h : GoesRound step a) (k : Nat) : Continues step k a := by
  induction k generalizing a with
  | zero => trivial
  | succ k ih =>
      obtain ⟨b, hab, hb⟩ := h.next
      exact ⟨b, hab, ih hb⟩

open Classical in
/-- A way that does not go round has at most as many steps as there are things it may pass: each step leaves
    the thing it begins at behind. -/
theorem Continues.le_card (h : Continues step k a) (hbound : ∀ a b, step a b → a < bound)
    (hround : ¬ GoesRound step a) :
    k ≤ ((Finset.range bound).filter fun b => ReflTransGen step a b).card := by
  induction k generalizing a with
  | zero => exact Nat.zero_le _
  | succ k ih =>
      obtain ⟨b, hab, hb⟩ := h
      have hle := ih hb fun hround' => hround (hround'.head hab)
      refine Nat.lt_of_le_of_lt hle (Finset.card_lt_card (Finset.ssubset_iff_subset_ne.mpr ⟨?_, ?_⟩))
      · intro c hc
        obtain ⟨hlt, hbc⟩ := Finset.mem_filter.mp hc
        exact Finset.mem_filter.mpr ⟨hlt, .head hab hbc⟩
      · intro heq
        have ha : a ∈ (Finset.range bound).filter fun c => ReflTransGen step a c :=
          Finset.mem_filter.mpr ⟨Finset.mem_range.mpr (hbound a b hab), .refl⟩
        rw [← heq] at ha
        exact hround ⟨a, .refl, .head' hab (Finset.mem_filter.mp ha).2⟩

open Classical in
/-- **A way of more steps than there are things goes round.** -/
theorem continues_iff (hbound : ∀ a b, step a b → a < bound) :
    Continues step (bound + 1) a ↔ GoesRound step a := by
  constructor
  · intro h
    by_contra hround
    have hle := h.le_card hbound hround
    have hcard := Finset.card_filter_le (Finset.range bound) fun b => ReflTransGen step a b
    rw [Finset.card_range] at hcard
    omega
  · intro h
    exact h.continues _

end Ways

namespace Store

variable {s s' : Store} {n p : NodeId}

/-! ## The climb -/

/-- The climb of `next` goes on from `n` to `p`: that is the parent of `n`, and the index of `n` is the
last position of its list. -/
def Climbs (s : Store) (n p : NodeId) : Prop :=
  (s.node n).parent = some (.node p) ∧
    ∃ i : Nat, s.Reads n "index" (.int i) ∧ i + 1 = (s.children p).length

theorem Climbs.lt_size (h : s.Climbs n p) : n < s.nodes.size := by
  by_contra hout
  have hparent := h.1
  rw [node_of_size_le s (Nat.le_of_not_lt hout)] at hparent
  cases hparent

theorem Climbs.unique {q : NodeId} (h : s.Climbs n p) (h' : s.Climbs n q) : p = q :=
  Value.node.inj (Option.some.inj (h.1.symm.trans h'.1))

theorem reads_index (hs : s.Regular) {v : Value} : s.Reads n "index" v ↔ s.heldIndex n = v := by
  obtain ⟨s', hrun, -⟩ := readIndex_held hs n
  have hread : readNode n "index" s = Run.ended (.ok (s.heldIndex n)) s' := by
    rw [readNode_index, hrun]
    rfl
  rw [reads_iff hread]
  exact ⟨Except.ok.inj, congrArg Except.ok⟩

theorem climbs_iff (hs : s.Regular) : s.Climbs n p ↔ (s.node n).parent = some (.node p) ∧
    ∃ i : Nat, s.heldIndex n = .int i ∧ i + 1 = (s.children p).length := by
  simp only [Climbs, reads_index hs]

/-- Nothing of what a climb goes by is different. -/
structure SameClimbs (s s' : Store) : Prop extends Reread s s' where
  held : ∀ n, s'.heldIndex n = s.heldIndex n

theorem SameClimbs.refl (s : Store) : s.SameClimbs s := ⟨.refl s, fun _ => rfl⟩

theorem SameClimbs.trans {s'' : Store} (h : s.SameClimbs s') (h' : s'.SameClimbs s'') :
    s.SameClimbs s'' :=
  ⟨h.toReread.trans h'.toReread, fun n => (h'.held n).trans (h.held n)⟩

theorem SameClimbs.parent_eq (h : s.SameClimbs s') (n : NodeId) : (s'.node n).parent = (s.node n).parent :=
  h.resembles.parent n

theorem SameClimbs.cls_eq (h : s.SameClimbs s') (n : NodeId) : (s'.node n).cls = (s.node n).cls :=
  h.resembles.cls n

theorem SameClimbs.climbs_eq (h : s.SameClimbs s') (hs : s.Regular) : s'.Climbs = s.Climbs := by
  funext n p
  have hchildren : s'.children p = s.children p :=
    h.resembles.children p
  rw [climbs_iff hs, climbs_iff (h.regular hs), h.parent_eq n, h.held n, hchildren]

/-! ## Where the climb ends -/

/-- The index is a position among the siblings, or the value for "not there". -/
theorem heldIndex_place (s : Store) (n : NodeId) :
    (∃ i : Nat, s.heldIndex n = .int i ∧ i < (s.siblingList n).length) ∨ s.heldIndex n = s.detached n := by
  rcases heldIndex_cases s n with ⟨i, hheld, hi⟩ | hplain
  · exact Or.inl ⟨i, hheld, (List.getElem?_eq_some_iff.mp hi).1⟩
  · rw [hplain, plainIndex, scanned]
    cases hpos : position? (s.siblingList n) n with
    | none => exact Or.inr rfl
    | some i =>
        rw [position?, List.idxOf?_eq_some_iff] at hpos
        exact Or.inl ⟨i, rfl, hpos.1⟩

/-- No step up is taken from a node that is not there. -/
theorem not_climbs_of_detached (hs : s.Regular) (hsentinel : (s.node n).cls.detached < 0)
    (hindex : s.heldIndex n = s.detached n) : ¬ s.Climbs n p := by
  intro h
  obtain ⟨-, i, hi, -⟩ := (climbs_iff hs).mp h
  have hsame : (i : Int) = (s.node n).cls.detached := Value.int.inj (hi.symm.trans hindex)
  omega

/-- From a position with one to the right of it no step up is taken. -/
theorem not_climbs_of_lt (hs : s.Regular) {i : Nat} (hindex : s.heldIndex n = .int i)
    (hlt : i + 1 < (s.siblingList n).length) : ¬ s.Climbs n p := by
  intro h
  obtain ⟨hparent, j, hj, hlast⟩ := (climbs_iff hs).mp h
  have hsame : (i : Int) = j := Value.int.inj (hindex.symm.trans hj)
  rw [siblingList_of_parent hparent] at hlt
  omega

/-- The run ends with a value if the way up from `n` has less than `fuel` steps, and without end otherwise. -/
def EndsWithin (s : Store) (fuel : Nat) (n : NodeId) (run : EStateM.Result Fault Store Value) : Prop :=
  ∃ s', s.SameClimbs s' ∧
    ((∃ v, run = .ok v s') ∧ ¬ Continues s.Climbs fuel n ∨
      run = .error .endless s' ∧ Continues s.Climbs fuel n)

theorem EndsWithin.of_ok {fuel : Nat} {run : EStateM.Result Fault Store Value} {v : Value}
    (h : s.SameClimbs s') (hrun : run = .ok v s') (hend : ∀ p, ¬ s.Climbs n p) :
    s.EndsWithin (fuel + 1) n run :=
  ⟨s', h, Or.inl ⟨⟨v, hrun⟩, fun ⟨p, hp, _⟩ => hend p hp⟩⟩

theorem EndsWithin.recover {fuel : Nat} {run otherwise : Run Value} (h : s.EndsWithin fuel n (run s)) :
    s.EndsWithin fuel n (Run.recover run otherwise s) := by
  obtain ⟨s', hs', ⟨⟨v, hrun⟩, hend⟩ | ⟨hrun, hway⟩⟩ := h
  · exact ⟨s', hs', Or.inl ⟨⟨v, Run.recover_of_ok hrun⟩, hend⟩⟩
  · refine ⟨s', hs', Or.inr ⟨?_, hway⟩⟩
    rw [Run.recover, hrun]
    rfl

/-- **A climb of limited height ends unless the way up is as long as that.** Each step reads one index, which
    leaves the way up as it is. -/
theorem nextWithin_held (hs : s.Regular) (hsentinel : ∀ n, (s.node n).cls.detached < 0) (fuel : Nat)
    (n : NodeId) : s.EndsWithin fuel n (nextWithin fuel n s) := by
  induction fuel generalizing s n with
  | zero => exact ⟨s, .refl s, Or.inr ⟨rfl, trivial⟩⟩
  | succ fuel ih =>
      refine EndsWithin.recover ?_
      obtain ⟨siblings, hsib, hpresent, hnodes⟩ := isPresent_siblings hs n
      rw [Run.bind_of_ok (Run.check_of_ok hsib), Run.get_bind, hpresent]
      by_cases hempty : (s.siblingList n).isEmpty
      · -- no siblings, and nothing to climb from
        rw [hempty]
        refine .of_ok (.refl s) rfl fun p hp => ?_
        obtain ⟨i, -, hlast⟩ := hp.2
        rw [siblingList_of_parent hp.1, List.isEmpty_iff] at hempty
        simp [hempty] at hlast
      · obtain ⟨s', hread, hreread, hheld⟩ := readIndex_held hs n
        have hsame : s.SameClimbs s' := ⟨hreread, hheld⟩
        rw [Bool.not_eq_true] at hempty
        simp only [hempty, Bool.not_false, Bool.not_true, Bool.false_eq_true, if_false]
        rw [Run.bind_of_ok hread, Run.get_bind, hnodes hempty, hsame.cls_eq, hsame.parent_eq]
        rcases heldIndex_place s n with ⟨i, hi, hlt⟩ | hdetached
        · have hpresent : (s.heldIndex n).equalsInt (s.node n).cls.detached = false := by
            have hneg := hsentinel n
            rw [hi, Value.equalsInt_int, beq_eq_false_iff_ne]
            omega
          rw [hpresent, if_neg Bool.false_ne_true,
            Run.bind_of_ok (Run.check_of_ok (show Siblings.count s' _ = .ok _ from rfl)), hi]
          by_cases hright : i + 1 < (s.siblingList n).length
          · -- a step to the right
            rw [hintIsBelow_right, decide_eq_true hright, if_pos rfl]
            exact .of_ok hsame (Run.check_of_ok (listItem_right s' hright)) fun p =>
              not_climbs_of_lt hs hi hright
          · -- the last position: a step up
            rw [hintIsBelow_right, decide_eq_false hright, if_neg Bool.false_ne_true]
            cases hp : (s.node n).parent with
            | none =>
                rw [siblingList, hp] at hlt
                exact absurd hlt (Nat.not_lt_zero i)
            | some v =>
                obtain ⟨p, rfl⟩ := (hs.proper n).parent_node v hp
                rw [siblingList_of_parent hp] at hlt hright
                have hclimb : s.Climbs n p := (climbs_iff hs).mpr ⟨hp, i, hi, by omega⟩
                have hway : Continues s.Climbs (fuel + 1) n ↔ Continues s.Climbs fuel p := by
                  refine ⟨?_, fun hrest => ⟨p, hclimb, hrest⟩⟩
                  rintro ⟨q, hq, hrest⟩
                  exact hclimb.unique hq ▸ hrest
                obtain ⟨s'', hs'', hend⟩ := ih (hsame.regular hs) (fun m => hsame.cls_eq m ▸ hsentinel m) p
                rw [hsame.climbs_eq hs, ← hway] at hend
                exact ⟨s'', hsame.trans hs'', hend⟩
        · have habsent : (s.heldIndex n).equalsInt (s.node n).cls.detached = true := by
            rw [hdetached, detached, Value.equalsInt_int, beq_self_eq_true]
          rw [habsent, if_pos rfl]
          exact .of_ok hsame rfl fun p => not_climbs_of_detached hs (hsentinel n) hdetached

/-- **`next` ends unless the climb goes round**, and then it has no end. -/
theorem next_ends (hs : s.Regular) (hsentinel : ∀ n, (s.node n).cls.detached < 0) (n : NodeId) :
    (∃ v s', next n s = .ok v s') ∧ ¬ GoesRound s.Climbs n ∨
      (∃ s', next n s = .error .endless s') ∧ GoesRound s.Climbs n := by
  obtain ⟨s', -, hend⟩ := nextWithin_held hs hsentinel (s.nodes.size + 1) n
  rw [continues_iff fun a b (hab : s.Climbs a b) => hab.lt_size] at hend
  rcases hend with ⟨⟨v, hrun⟩, hround⟩ | ⟨hrun, hround⟩
  · exact Or.inl ⟨⟨v, s', hrun⟩, hround⟩
  · exact Or.inr ⟨⟨s', hrun⟩, hround⟩

end Store
end SyntaxTree
