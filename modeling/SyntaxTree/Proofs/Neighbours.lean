import SyntaxTree.Action
import SyntaxTree.Proofs.Index

/-!
# `Proofs.Neighbours` — neighbours without hints

`prev` and `next` ask for an index at each node they pass, and each time a hint may be renewed.
`plainPrev` and `plainNextWithin` go the same way with the plain index. Where no node stands twice among
its siblings (`Tidy`) the answers are the same, value or fault, and the store that is left behind differs
in hints and debug records only.

Reading an attribute of a node looks its name up among the members of the class. For the computed
properties the equations at the end say which question is asked, so that nothing else has to look at names.
-/

namespace SyntaxTree

namespace Run

variable {α : Type}

/-- The end of a run that answers `x` and leaves `s`. -/
def ended (x : Except Fault α) (s : Store) : EStateM.Result Fault Store α :=
  match x with
  | .ok a => .ok a s
  | .error e => .error e s

@[simp] theorem ended_error (e : Fault) (s : Store) : ended (.error e : Except Fault α) s = .error e s := rfl

@[simp] theorem outcome_ended (x : Except Fault α) (s : Store) : outcome (ended x s) = x := by
  cases x <;> rfl

@[simp] theorem after_ended (x : Except Fault α) (s : Store) : after (ended x s) = s := by
  cases x <;> rfl

theorem check_eq_ended (f : Store → Except Fault α) (s : Store) : check f s = ended (f s) s := by
  unfold check ended
  cases f s <;> rfl

/-- A fault that is not one of attribute access is not recovered from. -/
theorem recover_of_ended {run otherwise : Run α} {x : Except Fault α} {s : Store} {P : Store → Prop}
    (h : ∃ s', run s = ended x s' ∧ P s') (hx : ∀ e, x = .error e → e.isAttribute = false) :
    ∃ s', recover run otherwise s = ended x s' ∧ P s' := by
  obtain ⟨s', hrun, hP⟩ := h
  refine ⟨s', ?_, hP⟩
  cases x with
  | ok a => exact recover_of_ok hrun
  | error e =>
      rw [ended_error] at hrun ⊢
      simp [recover, hrun, hx e rfl]

end Run

namespace Store

/-- The nodes that are `alive` stand at most once among their siblings, and their parents are alive. -/
structure Tidy (s : Store) (alive : NodeId → Prop) : Prop where
  siblings : ∀ n, alive n → (s.siblingList n).Nodup
  above : ∀ n p, alive n → (s.node n).parent = some (.node p) → alive p

/-- It is enough that no list of children holds anything twice. -/
theorem Tidy.of_children {s : Store} (h : ∀ n, (s.children n).Nodup) : s.Tidy fun _ => True where
  siblings n _ := by
    unfold siblingList
    split
    · exact h _
    · exact List.nodup_nil
  above _ _ _ _ := trivial

theorem Reread.tidy {s s' : Store} {alive : NodeId → Prop} (h : s.Reread s') (hs : s.Tidy alive) :
    s'.Tidy alive where
  siblings n hn := by
    rw [h.resembles.siblingList_eq n]
    exact hs.siblings n hn
  above n p hn hp := by
    have hparent : (s'.node n).parent = (s.node n).parent :=
      h.resembles.parent n
    exact hs.above n p hn (hparent ▸ hp)

/-! ## Plain neighbours -/

/-- The sibling before a node by its plain index, or null. -/
def plainPrev (s : Store) (n : NodeId) : Except Fault Value :=
  if (s.siblingList n).isEmpty then .ok .null
  else if hasBefore (s.plainIndex n) then
    s.listItem "list" (s.siblingList n) (moved (s.plainIndex n) (-1))
  else .ok .null

/-- The node after this one by plain indices, or null, in a climb of limited height. -/
def plainNextWithin (s : Store) : Nat → NodeId → Except Fault Value
  | 0, _ => .error .endless
  | fuel + 1, n =>
    if (s.siblingList n).isEmpty then .ok .null
    else if (s.plainIndex n).equalsInt (s.node n).cls.detached then .ok .null
    else if hintIsBelow (s.siblingList n).length (moved (s.plainIndex n) 1) then
      s.listItem "list" (s.siblingList n) (moved (s.plainIndex n) 1)
    else
      match (s.node n).parent with
      | some (.node p) => plainNextWithin s fuel p
      | _ => .ok .null

/-- The node after this one by plain indices, or null. -/
def plainNext (s : Store) (n : NodeId) : Except Fault Value := s.plainNextWithin (s.nodes.size + 1) n

theorem Resembles.plainPrev_eq {s t : Store} (h : s.Resembles t) (n : NodeId) :
    s.plainPrev n = t.plainPrev n := by
  simp only [plainPrev, h.siblingList_eq, h.plainIndex_eq, h.listItem_eq]

theorem Resembles.plainNextWithin_eq {s t : Store} (h : s.Resembles t) (fuel : Nat) (n : NodeId) :
    s.plainNextWithin fuel n = t.plainNextWithin fuel n := by
  induction fuel generalizing n with
  | zero => rfl
  | succ fuel ih =>
      simp only [plainNextWithin, h.siblingList_eq, h.plainIndex_eq, h.listItem_eq, h.cls, h.parent, ih]

theorem Resembles.plainNext_eq {s t : Store} (h : s.Resembles t) (n : NodeId) :
    s.plainNext n = t.plainNext n := by
  simp only [plainNext, h.plainNextWithin_eq, h.size]

theorem placeOf_int (s : Store) (sequence : String) (length : Nat) (outside : Fault) (i : Int) :
    s.placeOf sequence length outside (.int i) =
      match placeOf? length i with
      | some place => .ok place
      | none => .error (if isAddressable i then outside else .indexTooLarge) := rfl

/-- There is a place to the right of a position below the last one. -/
theorem hintIsBelow_right (count i : Nat) :
    hintIsBelow count (moved (.int i) 1) = decide (i + 1 < count) :=
  decide_eq_decide.mpr Int.ofNat_lt

/-- What stands to the right of a position. -/
theorem listItem_right (s : Store) {l : List Value} {i : Nat} (h : i + 1 < l.length) :
    s.listItem "list" l (moved (.int i) 1) = .ok l[i + 1] := by
  have hplace := placeOf?_of_lt h
  show s.listItem "list" l (.int ((i + 1 : Nat) : Int)) = _
  simp only [listItem, placeOf_int, hplace, bind, Except.bind, List.getElem?_eq_getElem h,
    Option.getD_some]

/-- An integer position fails only by lying outside of the list. -/
theorem listItem_int_error {s : Store} {sequence : String} {l : List Value} {i : Int} {e : Fault}
    (h : s.listItem sequence l (.int i) = .error e) : e.isAttribute = false := by
  rw [listItem, placeOf_int] at h
  cases hplace : placeOf? l.length i with
  | some place => rw [hplace] at h; cases h
  | none =>
      rw [hplace] at h
      by_cases hi : isAddressable i
      · rw [if_pos hi] at h; cases h; rfl
      · rw [if_neg hi] at h; cases h; rfl

/-- The faults of a plain climb are not faults of attribute access. -/
theorem plainNextWithin_error {s : Store} {fuel : Nat} {n : NodeId} {e : Fault}
    (h : s.plainNextWithin fuel n = .error e) : e.isAttribute = false := by
  induction fuel generalizing n with
  | zero => cases h; rfl
  | succ fuel ih =>
      obtain ⟨i, hi⟩ := scanned_int s (s.siblingList n) n
      unfold plainNextWithin at h
      split at h
      · cases h
      split at h
      · cases h
      split at h
      · rw [plainIndex, hi] at h
        exact listItem_int_error h
      split at h
      · exact ih h
      · cases h

/-! ## Reading neighbours -/

/-- What is asked of siblings before the index is read. -/
theorem isPresent_siblings {s : Store} (hs : s.Regular) (n : NodeId) :
    ∃ siblings, s.siblings n = .ok siblings ∧
      (siblings.isPresent s = !(s.siblingList n).isEmpty) ∧
      ((s.siblingList n).isEmpty = false → siblings = .nodes (s.siblingList n)) := by
  rcases siblings_eq hs n with ⟨habs, hnil⟩ | hnodes
  · exact ⟨.absent, habs, by rw [hnil]; rfl, fun h => by rw [hnil] at h; cases h⟩
  · exact ⟨_, hnodes, rfl, fun _ => rfl⟩

/-- The faults of the plain way to the left are not faults of attribute access. -/
theorem plainPrev_error {s : Store} {n : NodeId} {e : Fault} (h : s.plainPrev n = .error e) :
    e.isAttribute = false := by
  obtain ⟨i, hi⟩ := scanned_int s (s.siblingList n) n
  unfold plainPrev at h
  split at h
  · cases h
  split at h
  · rw [plainIndex, hi] at h
    exact listItem_int_error h
  · cases h

/-- **Reading `prev` is the plain way to the left.** -/
theorem prev_eq {s : Store} {alive : NodeId → Prop} (hs : s.Regular) (htidy : s.Tidy alive) {n : NodeId}
    (hn : alive n) : ∃ s', prev n s = Run.ended (s.plainPrev n) s' ∧ s.Reread s' := by
  refine Run.recover_of_ended ?_ fun _ => plainPrev_error
  obtain ⟨siblings, hsib, hpresent, hnodes⟩ := isPresent_siblings hs n
  rw [Run.bind_of_ok (Run.check_of_ok hsib), Run.get_bind, hpresent, plainPrev]
  by_cases hempty : (s.siblingList n).isEmpty
  · rw [hempty]
    exact ⟨s, rfl, .refl s⟩
  · obtain ⟨s', hread, hs'⟩ := readIndex_eq hs (htidy.siblings n hn)
    rw [Bool.not_eq_true] at hempty
    simp only [hempty, Bool.not_false, Bool.not_true, Bool.false_eq_true, if_false]
    rw [Run.bind_of_ok hread, hnodes hempty]
    refine ⟨s', ?_, hs'⟩
    split
    · rw [Run.check_eq_ended, ← hs'.resembles.listItem_eq "list" _ _]
      rfl
    · rfl

/-- **Reading `next` is the plain climb.** Each step of the climb may renew one hint, which the steps
    above it do not see. -/
theorem nextWithin_eq {s : Store} {alive : NodeId → Prop} (hs : s.Regular) (htidy : s.Tidy alive)
    (fuel : Nat) {n : NodeId} (hn : alive n) :
    ∃ s', nextWithin fuel n s = Run.ended (s.plainNextWithin fuel n) s' ∧ s.Reread s' := by
  induction fuel generalizing s n with
  | zero => exact ⟨s, rfl, .refl s⟩
  | succ fuel ih =>
      refine Run.recover_of_ended ?_ fun _ => plainNextWithin_error
      obtain ⟨siblings, hsib, hpresent, hnodes⟩ := isPresent_siblings hs n
      rw [Run.bind_of_ok (Run.check_of_ok hsib), Run.get_bind, hpresent, plainNextWithin]
      by_cases hempty : (s.siblingList n).isEmpty
      · -- no siblings, and nothing to climb from
        rw [hempty]
        exact ⟨s, rfl, .refl s⟩
      · obtain ⟨s', hread, hs'⟩ := readIndex_eq hs (htidy.siblings n hn)
        -- what is looked at from here on is the same after the index was read
        have hcls : (s'.node n).cls = (s.node n).cls :=
          hs'.resembles.cls n
        have hparent : (s'.node n).parent = (s.node n).parent :=
          hs'.resembles.parent n
        rw [Bool.not_eq_true] at hempty
        simp only [hempty, Bool.not_false, Bool.not_true, Bool.false_eq_true, if_false]
        rw [Run.bind_of_ok hread, Run.get_bind, hnodes hempty, hcls, hparent]
        split
        · exact ⟨s', rfl, hs'⟩
        rw [Run.bind_of_ok (Run.check_of_ok (show Siblings.count s' _ = .ok _ from rfl))]
        split
        · refine ⟨s', ?_, hs'⟩
          rw [Run.check_eq_ended,
            ← hs'.resembles.listItem_eq "list" _ _]
          rfl
        cases hp : (s.node n).parent with
        | none => exact ⟨s', rfl, hs'⟩
        | some v =>
            -- the climb goes on in the store that the reading of the index has left
            obtain ⟨p, rfl⟩ := (hs.proper n).parent_node v hp
            obtain ⟨s'', hrun, hs''⟩ := ih (hs'.regular hs) (hs'.tidy htidy) (htidy.above n p hn hp)
            refine ⟨s'', ?_, hs'.trans hs''⟩
            rw [hs'.resembles.plainNextWithin_eq fuel p]
              at hrun
            exact hrun

/-- **Reading `next` is the plain way on.** -/
theorem next_eq {s : Store} {alive : NodeId → Prop} (hs : s.Regular) (htidy : s.Tidy alive) {n : NodeId}
    (hn : alive n) : ∃ s', next n s = Run.ended (s.plainNext n) s' ∧ s.Reread s' :=
  nextWithin_eq hs htidy (s.nodes.size + 1) hn

end Store

/-! ## What a name asks of a node -/

open Store

theorem perform_read (n : NodeId) (name : String) :
    (Action.read (.node n) name).perform = readNode n name := rfl

@[simp] theorem readNode_index (n : NodeId) : readNode n "index" = readIndex n := rfl

@[simp] theorem readNode_prev (n : NodeId) : readNode n "prev" = prev n := rfl

@[simp] theorem readNode_next (n : NodeId) : readNode n "next" = next n := rfl

@[simp] theorem readNode_siblings (n : NodeId) : readNode n "siblings" = readSiblings n := rfl

@[simp] theorem readNode_first (n : NodeId) : readNode n "first" = Run.read fun s => s.first n := rfl

@[simp] theorem readNode_last (n : NodeId) : readNode n "last" = Run.read fun s => s.last n := rfl

@[simp] theorem readNode_scope (n : NodeId) : readNode n "scope" =
    Run.recover (Run.check fun s => s.scope n) (Run.check fun s => s.extra n "scope") := rfl

/-- Reading `name` of the node `n` answers `v`. -/
def Store.Reads (s : Store) (n : NodeId) (name : String) (v : Value) : Prop :=
  Run.outcome ((Action.read (.node n) name).perform s) = .ok v

theorem reads_iff {s s' : Store} {n : NodeId} {name : String} {v : Value} {x : Except Fault Value}
    (h : readNode n name s = Run.ended x s') : s.Reads n name v ↔ x = .ok v := by
  rw [Reads, perform_read, h, Run.outcome_ended]

theorem reads_last {s : Store} {n : NodeId} {v : Value} : s.Reads n "last" v ↔ s.last n = v :=
  ⟨Except.ok.inj, congrArg Except.ok⟩

end SyntaxTree
