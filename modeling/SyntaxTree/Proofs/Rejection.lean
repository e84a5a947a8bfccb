import SyntaxTree.Node.Clone
import SyntaxTree.Proofs.Run

/-!
# `Proofs.Rejection` — which steps refuse a call

Two families of faults tell the caller that the call itself was wrong: an argument of the wrong shape, and
an assignment to a computed property. They come from very few places, the checks that something is a node,
the compilation of a matcher and the assignment of members. Everything else may fail as well, but with a
fault of another family.

`FailsOnly` says of a computation what its faults are like, and `Run.FailsOnly` says it of a run. Both go
through programs step by step, and below them is one lemma for each function that never refuses.
-/

namespace SyntaxTree

/-- The fault says that the call was wrong. -/
def Fault.isRejection (f : Fault) : Bool :=
  f.category == .invalidArgument || f.category == .invalidOperation

/-- The fault says something else than that the call was wrong. -/
def Fault.IsOther (f : Fault) : Prop := f.isRejection = false

/-! ## Faults of computations -/

/-- If the computation fails, then with a fault of this kind. -/
def FailsOnly {α : Type} (P : Fault → Prop) (x : Except Fault α) : Prop := ∀ e, x = .error e → P e

section FailsOnly

variable {α β : Type} {P : Fault → Prop}

theorem FailsOnly.ok (a : α) : FailsOnly P (.ok a) := by
  intro e h
  cases h

theorem FailsOnly.error {e : Fault} (h : P e) : FailsOnly P (.error e : Except Fault α) := by
  intro e' he
  cases he
  exact h

theorem FailsOnly.bind {x : Except Fault β} {f : β → Except Fault α} (hx : FailsOnly P x)
    (hf : ∀ b, FailsOnly P (f b)) : FailsOnly P (x >>= f) := by
  cases x with
  | ok b => exact hf b
  | error e => exact .error (hx e rfl)

theorem FailsOnly.map {x : Except Fault β} {f : β → α} (hx : FailsOnly P x) : FailsOnly P (f <$> x) := by
  cases x with
  | ok b => exact .ok _
  | error e => exact .error (hx e rfl)

end FailsOnly

/-! ## Faults of runs -/

namespace Run

variable {α β : Type} {P : Fault → Prop}

/-- If the run fails, then with a fault of this kind. -/
def FailsOnly (P : Fault → Prop) (run : Run α) : Prop :=
  ∀ s, Ends run s (fun _ _ => True) fun e _ => P e

theorem FailsOnly.of_error {run : Run α} (h : FailsOnly P run) {s s' : Store} {e : Fault}
    (hrun : run s = .error e s') : P e := (ends_of_error hrun).mp (h s)

theorem FailsOnly.pure (a : α) : FailsOnly P (pure a) := fun _ => trivial

theorem FailsOnly.throw {e : Fault} (h : P e) : FailsOnly P (throw e : Run α) := fun _ => h

theorem FailsOnly.get : FailsOnly P (get : Run Store) := fun _ => trivial

theorem FailsOnly.set (s : Store) : FailsOnly P (set s : Run PUnit) := fun _ => trivial

theorem FailsOnly.read (f : Store → α) : FailsOnly P (read f) := fun _ => trivial

theorem FailsOnly.update (f : Store → Store) : FailsOnly P (update f) := fun _ => trivial

theorem FailsOnly.bind {run : Run β} {next : β → Run α} (h : FailsOnly P run)
    (hnext : ∀ b, FailsOnly P (next b)) : FailsOnly P (run >>= next) := fun s =>
  ends_bind.mpr ((h s).mono (fun b s' _ => hnext b s') fun _ _ he => he)

theorem FailsOnly.check {f : Store → Except Fault α} (h : ∀ s, SyntaxTree.FailsOnly P (f s)) :
    FailsOnly P (check f) := by
  intro s
  rw [ends_check]
  cases hf : f s with
  | ok a => exact trivial
  | error e => exact h s e hf

theorem FailsOnly.ite {c : Prop} [Decidable c] {run run' : Run α} (h : FailsOnly P run)
    (h' : FailsOnly P run') : FailsOnly P (if c then run else run') := by
  split
  · exact h
  · exact h'

theorem FailsOnly.recover {run otherwise : Run α} (h : FailsOnly P run)
    (h' : FailsOnly P otherwise) : FailsOnly P (recover run otherwise) := by
  intro s
  rw [ends_recover]
  refine (h s).mono (fun _ _ _ => trivial) fun e s' he => ?_
  split
  · exact h' s'
  · exact he

theorem unchanged_of_check_error {f : Store → Except Fault α} {s s' : Store} {e : Fault}
    (hrun : Run.check f s = .error e s') : s' = s := by
  unfold Run.check at hrun
  split at hrun
  · cases hrun
  · cases hrun
    rfl

/-- A run that refuses only at its first check has changed nothing when it does. -/
theorem unchanged_of_check {f : Store → Except Fault β} {next : β → Run α} {s s' : Store} {e : Fault}
    (hnext : ∀ b, FailsOnly Fault.IsOther (next b)) (hrun : (Run.check f >>= next) s = .error e s')
    (he : e.isRejection = true) : s' = s := by
  cases hf : f s with
  | ok b =>
      rw [bind_of_ok (check_of_ok hf)] at hrun
      have hother : e.isRejection = false := (hnext b).of_error hrun
      rw [he] at hother
      cases hother
  | error e' =>
      rw [bind_of_error (check_of_error hf)] at hrun
      cases hrun
      rfl

end Run

namespace Store

/-! ## Attributes and sequences -/

theorem missing_isOther (s : Store) (v : Value) (name : String) : (s.missing v name).IsOther := by
  cases v with
  | node n => rw [missing]; split <;> rfl
  | _ => rfl

theorem items_failsOnly (s : Store) (v : Value) : FailsOnly Fault.IsOther (s.items v) := by
  unfold items
  split
  · exact .ok _
  · exact .ok _
  · exact .ok _
  · exact .ok _
  · exact .error rfl

theorem lengthOf_failsOnly (s : Store) (v : Value) : FailsOnly Fault.IsOther (s.lengthOf v) := by
  unfold lengthOf
  split
  · exact .ok _
  · exact .error rfl

/-- A position fails by lying outside, by being too large for any list, or by being no position. -/
theorem placeOf_failsOnly (s : Store) (sequence : String) (length : Nat) {outside : Fault} (v : Value)
    (h : outside.IsOther) : FailsOnly Fault.IsOther (s.placeOf sequence length outside v) := by
  unfold placeOf
  split
  · dsimp only
    split
    · exact .ok _
    · split
      · exact .error h
      · exact .error rfl
  · dsimp only
    split
    · exact .ok _
    · split
      · exact .error h
      · exact .error rfl
  · exact .error rfl

theorem listItem_failsOnly (s : Store) (sequence : String) (l : List Value) (v : Value) :
    FailsOnly Fault.IsOther (s.listItem sequence l v) :=
  (placeOf_failsOnly s _ _ v (by rfl)).bind fun _ => .ok _

theorem itemAt_failsOnly (s : Store) (v position : Value) :
    FailsOnly Fault.IsOther (s.itemAt v position) := by
  unfold itemAt
  split
  · split
    · exact .ok _
    · exact .error rfl
  · exact .error rfl
  · exact .error rfl
  · exact .error rfl
  · split
    · exact listItem_failsOnly s _ _ _
    · exact .error rfl

theorem putItem_failsOnly (s : Store) (v : Value) (key : Key) (item : Value) :
    FailsOnly Fault.IsOther (s.putItem v key item) := by
  unfold putItem
  split
  · split
    · exact .ok _
    · exact (placeOf_failsOnly s _ _ _ (by rfl)).bind fun _ => .ok _
    · exact .error rfl
  · exact .error rfl

theorem freeField_failsOnly (s : Store) (v : Value) (name : String) :
    FailsOnly Fault.IsOther (s.freeField v name) := by
  unfold freeField
  split
  · exact .ok _
  · exact .error (missing_isOther s v name)

theorem extra_failsOnly (s : Store) (n : NodeId) (name : String) :
    FailsOnly Fault.IsOther (s.extra n name) := by
  unfold extra
  split
  · exact .error rfl
  · split
    · exact .error rfl
    · exact itemAt_failsOnly s _ _

/-! ## The index -/

theorem siblings_failsOnly (s : Store) (n : NodeId) : FailsOnly Fault.IsOther (s.siblings n) := by
  unfold siblings
  split
  · exact .ok _
  · exact .ok _
  · refine FailsOnly.bind ?_ fun v => ?_
    · unfold foreignSiblings
      split
      · exact .ok _
      · exact extra_failsOnly s n _
    · split
      · exact .ok _
      · exact .ok _

theorem siblingItems_failsOnly (s : Store) (siblings : Siblings) :
    FailsOnly Fault.IsOther (siblings.items s) := by
  cases siblings with
  | absent => exact .ok _
  | nodes l => exact .ok _
  | other v => exact items_failsOnly s v

theorem hintHolds_failsOnly (s : Store) (siblings : Siblings) (n : NodeId) (hint : Value) :
    FailsOnly Fault.IsOther (s.hintHolds siblings n hint) := by
  have hnonneg : FailsOnly Fault.IsOther (s.hintIsNonneg hint) := by
    unfold hintIsNonneg
    split
    · exact .ok _
    · split
      · exact .ok _
      · exact .error rfl
  have hcount : FailsOnly Fault.IsOther (siblings.count s) := by
    cases siblings with
    | absent => exact .ok _
    | nodes l => exact .ok _
    | other v => exact lengthOf_failsOnly s v
  have hitem : FailsOnly Fault.IsOther (siblings.itemAt s hint) := by
    cases siblings with
    | absent => exact .error rfl
    | nodes l => exact listItem_failsOnly s _ _ _
    | other v => exact itemAt_failsOnly s v hint
  unfold hintHolds
  refine hnonneg.bind fun nonneg => ?_
  split
  · refine hcount.bind fun count => ?_
    split
    · exact hitem.bind fun _ => .ok _
    · exact .ok _
  · exact .ok _

/-! ## Texts -/

section Display

variable {P : Fault → Prop} {shown : Value → Except Fault String}

theorem displayAll_failsOnly (h : ∀ v, FailsOnly P (shown v)) (vs : List Value) :
    FailsOnly P (displayAll shown vs) := by
  induction vs with
  | nil => exact .ok _
  | cons v vs ih => exact (h v).bind fun _ => ih.bind fun _ => .ok _

theorem displayEntries_failsOnly (h : ∀ v, FailsOnly P (shown v)) (es : Entries Value) :
    FailsOnly P (displayEntries shown es) := by
  induction es with
  | nil => exact .ok _
  | cons e es ih => exact (h _).bind fun _ => (h _).bind fun _ => ih.bind fun _ => .ok _

theorem displayPlain_failsOnly (h : ∀ v, FailsOnly P (shown v)) (v : Value) :
    FailsOnly P (displayPlain shown v) := by
  unfold displayPlain
  split
  · exact .ok _
  · exact .ok _
  · exact h v

theorem displayObject_failsOnly (s : Store) (h : ∀ v, FailsOnly P (shown v)) (o : Object) :
    FailsOnly P (s.displayObject shown o) := by
  cases o with
  | collection shape items => exact (displayAll_failsOnly h items).map
  | map es => exact (displayEntries_failsOnly h es).bind fun _ => .ok _
  | location line column => exact (h _).bind fun _ => (h _).bind fun _ => .ok _
  | position start finish source =>
      exact (h _).bind fun _ => (h _).bind fun _ => (h _).bind fun _ => .ok _
  | matcher kind target => exact (h _).bind fun _ => .ok _
  | tracker source line column =>
      exact (h _).bind fun _ => (displayPlain_failsOnly h line).bind fun _ =>
        (displayPlain_failsOnly h column).bind fun _ => .ok _
  | method owner name => exact (h _).bind fun _ => .ok _
  | wrapper tracker start fields => exact .ok _
  | foreign cls marker fields => exact .ok _
  | plain => exact .ok _

theorem displayNode_failsOnly (h : ∀ v, FailsOnly P (shown v)) (r : NodeRecord) :
    FailsOnly P (displayNode shown r) := by
  unfold displayNode
  refine (h r.type).bind fun type => ?_
  dsimp only
  split
  · exact (FailsOnly.ok _).bind fun _ => .ok _
  · exact (h r.value).map.bind fun _ => .ok _

/-- **A value cannot be shown only because it has no end.** -/
theorem displayWithin_failsOnly (s : Store) (fuel : Nat) (within : List ObjectId) (entered : List Value)
    (v : Value) : FailsOnly (· = .endless) (s.displayWithin fuel within entered v) := by
  induction fuel generalizing within entered v with
  | zero => exact .error rfl
  | succ fuel ih =>
      unfold displayWithin
      split
      · split
        · exact .error rfl
        · exact displayNode_failsOnly (fun w => ih _ _ w) _
      · split
        · split
          · exact .ok _
          · exact displayObject_failsOnly s (fun w => ih _ _ w) _
        · split
          · exact .error rfl
          · exact displayObject_failsOnly s (fun w => ih _ _ w) _
      · exact .ok _

end Display

/-! ## Runs that never refuse -/

theorem shownInRecord_failsOnly (v : Value) : Run.FailsOnly Fault.IsOther (shownInRecord v) := by
  intro s
  unfold Run.Ends shownInRecord
  cases hshown : s.display v with
  | ok text => exact trivial
  | error e =>
      -- the fault gets out only if the record is read
      have hend : e = .endless := displayWithin_failsOnly s _ _ _ v e hshown
      by_cases hread : s.logIsRead
      · simp only [hread, if_true]
        rw [hend]
        rfl
      · simp only [hread, if_false, Bool.false_eq_true]

theorem scanIndex_failsOnly (s : Store) (n : NodeId) : FailsOnly Fault.IsOther (s.scanIndex n) := by
  unfold scanIndex
  refine (siblings_failsOnly s n).bind fun siblings => ?_
  split
  · exact .ok _
  · exact (siblingItems_failsOnly s _).bind fun _ => .ok _

theorem rescan_failsOnly (n : NodeId) (siblings : Siblings) :
    Run.FailsOnly Fault.IsOther (rescan n siblings) := by
  refine (shownInRecord_failsOnly _).bind fun shown => ?_
  refine (Run.FailsOnly.update _).bind fun _ => ?_
  refine (Run.FailsOnly.check fun s => siblingItems_failsOnly s siblings).bind fun items => ?_
  refine (Run.FailsOnly.read _).bind fun index => ?_
  exact (Run.FailsOnly.update _).bind fun _ => .pure _

theorem locate_failsOnly (n : NodeId) : Run.FailsOnly Fault.IsOther (locate n) := by
  unfold locate
  refine Run.FailsOnly.get.bind fun s => ?_
  split
  · exact .check fun s => scanIndex_failsOnly s n
  · refine (Run.FailsOnly.check fun s => siblings_failsOnly s n).bind fun siblings => ?_
    split
    · exact .pure _
    · -- a hint that does not hold is what a scan is made for
      refine (Run.FailsOnly.check fun s => hintHolds_failsOnly s _ n _).bind fun holds => ?_
      split
      · exact .pure _
      · exact rescan_failsOnly n _

theorem readIndex_failsOnly (n : NodeId) : Run.FailsOnly Fault.IsOther (readIndex n) :=
  Run.FailsOnly.recover (locate_failsOnly n) (.check fun s => extra_failsOnly s n "index")

theorem indexOf_failsOnly (v : Value) : Run.FailsOnly Fault.IsOther (indexOf v) := by
  unfold indexOf
  split
  · exact readIndex_failsOnly _
  · exact .check fun s => freeField_failsOnly s v "index"

theorem deleteAt_failsOnly (n : NodeId) (position : Value) :
    Run.FailsOnly Fault.IsOther (deleteAt n position) := by
  unfold deleteAt
  refine Run.FailsOnly.get.bind fun s => ?_
  split
  · exact .throw rfl
  · exact (Run.FailsOnly.check fun s => placeOf_failsOnly s _ _ position (by rfl)).bind fun _ => .set _

/-- Removing refuses what does not pass for a node, before it does anything. -/
theorem remove_refused {n : NodeId} {child : Value} {s s' : Store} {e : Fault}
    (h : remove n child s = .error e s') (he : e.isRejection = true) : s' = s := by
  refine Run.unchanged_of_check (fun _ => ?_) h he
  have hparent (s : Store) : FailsOnly Fault.IsOther (s.parentOf child) := by
    unfold parentOf
    split
    · exact .ok _
    · exact freeField_failsOnly s child "parent"
  refine (Run.FailsOnly.check hparent).bind fun parent => ?_
  refine (Run.FailsOnly.read _).bind fun detached => ?_
  dsimp only
  -- the index of a child of another node is not asked for; what follows is the same
  refine Run.FailsOnly.ite ((indexOf_failsOnly child).bind fun index => ?_)
    ((Run.FailsOnly.pure _).bind fun index => ?_)
  all_goals
    refine Run.FailsOnly.ite ?_ ?_
    · exact (shownInRecord_failsOnly _).bind fun _ => (shownInRecord_failsOnly _).bind fun _ =>
        (Run.FailsOnly.update _).bind fun _ => .pure _
    · exact (deleteAt_failsOnly n index).bind fun _ => (Run.FailsOnly.update _).bind fun _ => .pure _

theorem assignExtra_failsOnly (n : NodeId) (key : Key) (v : Value) :
    Run.FailsOnly Fault.IsOther (assignExtra n key v) :=
  (Run.FailsOnly.check fun s => putItem_failsOnly s _ key v).bind fun _ => .set _

theorem mergeAttributes_failsOnly (n : NodeId) (es : Entries Value) :
    Run.FailsOnly Fault.IsOther (mergeAttributes n es) := by
  induction es with
  | nil => exact .pure _
  | cons e es ih =>
      obtain ⟨key, v⟩ := e
      unfold mergeAttributes
      refine Run.FailsOnly.get.bind fun s => ?_
      split
      · exact (Run.FailsOnly.update _).bind fun _ => ih
      · exact (assignExtra_failsOnly n key v).bind fun _ => ih

theorem setAttributes_failsOnly (n : NodeId) (mapping : Value) (named : Entries Value) :
    Run.FailsOnly Fault.IsOther (setAttributes n mapping named) := by
  refine (Run.FailsOnly.check fun s => ?_).bind fun es => mergeAttributes_failsOnly n _
  unfold mappingEntries
  split
  · split
    · exact .ok _
    · exact .error rfl
  · exact .ok _

end Store
end SyntaxTree
