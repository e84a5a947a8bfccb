import SyntaxTree.Store.Run

/-!
# `Proofs.Run` — what holds after a run

A run ends with a value or a fault, and with a store in either case, so a statement about a run has to
say something about both endings. `Run.Ends` is that statement in the form of a weakest precondition:
it is pushed through a program by one equation for each way of putting programs together, and a proof
about a program then has the shape of the program.

Two special cases are used so often that they have names of their own. `Run.Preserves` says that an
invariant outlives a run whatever way it ends. `Run.Agree` compares two runs of one program from two
stores: they end alike, and in stores that are again related.
-/

namespace SyntaxTree
namespace Run

variable {α β : Type}

/-! ## The first step of a run -/

theorem bind_of_ok {run : Run β} {next : β → Run α} {s s' : Store} {b : β} (h : run s = .ok b s') :
    (run >>= next) s = next b s' := by
  show EStateM.bind run next s = _
  rw [EStateM.bind, h]

theorem bind_of_error {run : Run β} {next : β → Run α} {s s' : Store} {e : Fault}
    (h : run s = .error e s') : (run >>= next) s = .error e s' := by
  show EStateM.bind run next s = _
  rw [EStateM.bind, h]

/-- What a run has done by its first step decides how it goes on. -/
theorem bind_congr {run run' : Run β} {next : β → Run α} {s s' : Store} (h : run s = run' s') :
    (run >>= next) s = (run' >>= next) s' := by
  show EStateM.bind run next s = EStateM.bind run' next s'
  rw [EStateM.bind, EStateM.bind, h]

@[simp] theorem get_bind (next : Store → Run α) (s : Store) : (get >>= next) s = next s s := rfl

@[simp] theorem read_bind (f : Store → β) (next : β → Run α) (s : Store) :
    (read f >>= next) s = next (f s) s := rfl

@[simp] theorem update_bind (f : Store → Store) (next : Unit → Run α) (s : Store) :
    (update f >>= next) s = next () (f s) := rfl

@[simp] theorem pure_run (a : α) (s : Store) : (pure a : Run α) s = .ok a s := rfl

theorem check_of_ok {f : Store → Except Fault α} {s : Store} {a : α} (h : f s = .ok a) :
    check f s = .ok a s := by
  rw [check, h]

theorem check_of_error {f : Store → Except Fault α} {s : Store} {e : Fault} (h : f s = .error e) :
    check f s = .error e s := by
  rw [check, h]

/-! ## One run -/

/-- After the run from `s`, `done` holds of value and store, or `failed` of fault and store. -/
def Ends (run : Run α) (s : Store) (done : α → Store → Prop) (failed : Fault → Store → Prop) : Prop :=
  match run s with
  | .ok a s' => done a s'
  | .error e s' => failed e s'

section Ends

variable {s : Store} {done done' : α → Store → Prop} {failed failed' : Fault → Store → Prop}

theorem ends_of_ok {run : Run α} {a : α} {s' : Store} (h : run s = .ok a s') :
    Ends run s done failed ↔ done a s' := by
  rw [Ends, h]

theorem ends_of_error {run : Run α} {e : Fault} {s' : Store} (h : run s = .error e s') :
    Ends run s done failed ↔ failed e s' := by
  rw [Ends, h]

theorem Ends.mono {run : Run α} (h : Ends run s done failed) (hdone : ∀ a s', done a s' → done' a s')
    (hfailed : ∀ e s', failed e s' → failed' e s') : Ends run s done' failed' := by
  unfold Ends at h ⊢
  cases hrun : run s with
  | ok a s' => rw [hrun] at h; exact hdone a s' h
  | error e s' => rw [hrun] at h; exact hfailed e s' h

@[simp] theorem ends_pure {a : α} : Ends (pure a) s done failed ↔ done a s := Iff.rfl

@[simp] theorem ends_throw {e : Fault} : Ends (throw e : Run α) s done failed ↔ failed e s := Iff.rfl

@[simp] theorem ends_bind {run : Run β} {next : β → Run α} :
    Ends (run >>= next) s done failed ↔
      Ends run s (fun b s' => Ends (next b) s' done failed) failed := by
  show Ends (EStateM.bind run next) s done failed ↔ _
  unfold Ends EStateM.bind
  cases run s <;> exact Iff.rfl

@[simp] theorem ends_map {run : Run β} {f : β → α} :
    Ends (f <$> run) s done failed ↔ Ends run s (fun b s' => done (f b) s') failed := by
  show Ends (EStateM.map f run) s done failed ↔ _
  unfold Ends EStateM.map
  cases run s <;> exact Iff.rfl

@[simp] theorem ends_get {done : Store → Store → Prop} :
    Ends (get : Run Store) s done failed ↔ done s s := Iff.rfl

@[simp] theorem ends_read {f : Store → α} : Ends (read f) s done failed ↔ done (f s) s := Iff.rfl

theorem ends_check {f : Store → Except Fault α} :
    Ends (check f) s done failed ↔
      match f s with
      | .ok a => done a s
      | .error e => failed e s := by
  unfold Ends check
  cases f s <;> exact Iff.rfl

@[simp] theorem ends_update {f : Store → Store} {done : Unit → Store → Prop} :
    Ends (update f) s done failed ↔ done () (f s) := Iff.rfl

@[simp] theorem ends_allocate {o : Object} {done : Value → Store → Prop} :
    Ends (allocate o) s done failed ↔ done (.object s.objects.size) (s.addObject o) := Iff.rfl

theorem ends_ite {c : Prop} [Decidable c] {run run' : Run α} :
    Ends (if c then run else run') s done failed ↔
      (c → Ends run s done failed) ∧ (¬ c → Ends run' s done failed) := by
  by_cases h : c <;> simp [h]

theorem ends_recover {run otherwise : Run α} :
    Ends (recover run otherwise) s done failed ↔
      Ends run s done fun e s' =>
        if e.isAttribute then Ends otherwise s' done failed else failed e s' := by
  unfold Ends recover
  cases run s with
  | ok a s' => exact Iff.rfl
  | error e s' =>
      by_cases h : e.isAttribute
      · simp only [h, if_true]
      · simp only [h, if_false, Bool.false_eq_true]

/-- What holds of the store however a run ends holds of the store after it. -/
theorem after_of_ends {run : Run α} {holds : Store → Prop}
    (h : Ends run s (fun _ s' => holds s') fun _ s' => holds s') : holds (after (run s)) := by
  unfold Ends at h
  cases hrun : run s with
  | ok a s' => rwa [hrun] at h
  | error e s' => rwa [hrun] at h

end Ends

/-! ## Invariants -/

/-- What holds before the run holds after it, whether it fails or not. -/
def Preserves (inv : Store → Prop) (run : Run α) : Prop :=
  ∀ s, inv s → Ends run s (fun _ s' => inv s') fun _ s' => inv s'

section Preserves

variable {inv : Store → Prop}

/-- What is preserved and holds before a run holds of the store after it. -/
theorem after_of_preserves {run : Run α} (h : Preserves inv run) {s : Store} (hs : inv s) : inv (after (run s)) :=
  after_of_ends (h s hs)

theorem Preserves.bind {run : Run β} {next : β → Run α} (h : Preserves inv run)
    (hnext : ∀ b, Preserves inv (next b)) : Preserves inv (run >>= next) := fun s hs =>
  ends_bind.mpr ((h s hs).mono (fun b s' hs' => hnext b s' hs') fun _ _ hs' => hs')

theorem Preserves.map {run : Run β} {f : β → α} (h : Preserves inv run) :
    Preserves inv (f <$> run) := fun s hs => ends_map.mpr (h s hs)

theorem Preserves.pure (a : α) : Preserves inv (pure a) := fun _ hs => ends_pure.mpr hs

theorem Preserves.throw (e : Fault) : Preserves inv (throw e : Run α) := fun _ hs => ends_throw.mpr hs

theorem Preserves.get : Preserves inv (get : Run Store) := fun _ hs => ends_get.mpr hs

theorem Preserves.read (f : Store → α) : Preserves inv (read f) := fun _ hs => ends_read.mpr hs

theorem Preserves.check (f : Store → Except Fault α) : Preserves inv (check f) := by
  intro s hs
  rw [ends_check]
  cases f s <;> exact hs

theorem Preserves.update {f : Store → Store} (h : ∀ s, inv s → inv (f s)) :
    Preserves inv (update f) := fun s hs => ends_update.mpr (h s hs)

theorem Preserves.set {s' : Store} (h : inv s') : Preserves inv (set s') := fun _ _ => h

theorem Preserves.allocate {o : Object} (h : ∀ s, inv s → inv (s.addObject o)) :
    Preserves inv (allocate o) := fun s hs => ends_allocate.mpr (h s hs)

theorem Preserves.ite {c : Prop} [Decidable c] {run run' : Run α} (h : c → Preserves inv run)
    (h' : ¬ c → Preserves inv run') : Preserves inv (if c then run else run') := by
  by_cases hc : c
  · simpa only [hc, if_true] using h hc
  · simpa only [hc, if_false] using h' hc

theorem Preserves.recover {run otherwise : Run α} (h : Preserves inv run)
    (h' : Preserves inv otherwise) : Preserves inv (recover run otherwise) := by
  intro s hs
  rw [ends_recover]
  refine (h s hs).mono (fun _ _ hs' => hs') fun e s' hs' => ?_
  split
  · exact h' s' hs'
  · exact hs'

/-- What is read for the next step is read where the invariant holds. -/
theorem Preserves.get_bind {next : Store → Run α} (h : ∀ s, inv s → Preserves inv (next s)) :
    Preserves inv (MonadState.get >>= next) := fun s hs => h s hs s hs

theorem Preserves.read_bind {f : Store → β} {next : β → Run α}
    (h : ∀ s, inv s → Preserves inv (next (f s))) : Preserves inv (Run.read f >>= next) := fun s hs => h s hs s hs

/-- What was checked for the next step was checked where the invariant holds. -/
theorem Preserves.check_bind {f : Store → Except Fault β} {next : β → Run α}
    (h : ∀ s b, inv s → f s = .ok b → Preserves inv (next b)) : Preserves inv (Run.check f >>= next) := by
  intro s hs
  rw [ends_bind, ends_check]
  cases hf : f s with
  | ok b => exact h s b hs hf s hs
  | error e => exact hs

end Preserves

/-- The invariant outlives the run, and what the run gives has a property. -/
def Yields (inv : Store → Prop) (run : Run α) (property : α → Prop) : Prop :=
  ∀ s, inv s → Ends run s (fun a s' => inv s' ∧ property a) fun _ s' => inv s'

section Yields

variable {inv : Store → Prop} {property : α → Prop} {given : β → Prop}

theorem Preserves.yields {run : Run α} (h : Preserves inv run) : Yields inv run fun _ => True :=
  fun s hs => (h s hs).mono (fun _ _ hs' => ⟨hs', trivial⟩) fun _ _ hs' => hs'

theorem Yields.preserves {run : Run α} (h : Yields inv run property) : Preserves inv run :=
  fun s hs => (h s hs).mono (fun _ _ hs' => hs'.1) fun _ _ hs' => hs'

theorem Yields.bind {run : Run β} {next : β → Run α} (h : Yields inv run given)
    (hnext : ∀ b, given b → Yields inv (next b) property) : Yields inv (run >>= next) property := fun s hs =>
  ends_bind.mpr ((h s hs).mono (fun b s' hs' => hnext b hs'.2 s' hs'.1) fun _ _ hs' => hs')

/-- Where the rest only has to preserve the invariant, so does the whole. -/
theorem Yields.bind_preserves {run : Run β} {next : β → Run α} (h : Yields inv run given)
    (hnext : ∀ b, given b → Preserves inv (next b)) : Preserves inv (run >>= next) :=
  (h.bind fun b hb => (hnext b hb).yields).preserves

theorem Yields.map {run : Run β} {f : β → α} (h : Yields inv run fun b => property (f b)) :
    Yields inv (f <$> run) property := fun s hs => ends_map.mpr (h s hs)

theorem Yields.pure {a : α} (h : property a) : Yields inv (pure a) property := fun _ hs =>
  ends_pure.mpr ⟨hs, h⟩

theorem Yields.get : Yields inv get inv := fun _ hs => ends_get.mpr ⟨hs, hs⟩

theorem Yields.read {f : Store → α} (h : ∀ s, inv s → property (f s)) : Yields inv (read f) property :=
  fun s hs => ends_read.mpr ⟨hs, h s hs⟩

theorem Yields.check {f : Store → Except Fault α} (h : ∀ s a, inv s → f s = .ok a → property a) :
    Yields inv (check f) property := by
  intro s hs
  rw [ends_check]
  cases hf : f s with
  | ok a => exact ⟨hs, h s a hs hf⟩
  | error e => exact hs

end Yields

/-! ## Two runs -/

/-- The run ends alike from both stores, and the stores after it are related by `rel`. -/
def Agree (rel : Store → Store → Prop) (run : Run α) (s t : Store) : Prop :=
  outcome (run s) = outcome (run t) ∧ rel (after (run s)) (after (run t))

section Agree

variable {rel : Store → Store → Prop} {s t : Store}

theorem Agree.of_ok {run : Run α} {a : α} {s' t' : Store} (hs : run s = .ok a s')
    (ht : run t = .ok a t') (h : rel s' t') : Agree rel run s t := by
  rw [Agree, hs, ht]
  exact ⟨rfl, h⟩

theorem Agree.of_error {run : Run α} {e : Fault} {s' t' : Store} (hs : run s = .error e s')
    (ht : run t = .error e t') (h : rel s' t') : Agree rel run s t := by
  rw [Agree, hs, ht]
  exact ⟨rfl, h⟩

/-- Runs that agree end with the same value or with the same fault. -/
theorem Agree.cases {run : Run α} (h : Agree rel run s t) :
    (∃ a s' t', run s = .ok a s' ∧ run t = .ok a t' ∧ rel s' t') ∨
      ∃ e s' t', run s = .error e s' ∧ run t = .error e t' ∧ rel s' t' := by
  obtain ⟨heq, hrel⟩ := h
  cases hs : run s with
  | ok a s' =>
      cases ht : run t with
      | ok b t' =>
          rw [hs, ht] at heq hrel
          exact Or.inl ⟨a, s', t', rfl, by rw [Except.ok.inj heq], hrel⟩
      | error e t' => rw [hs, ht] at heq; cases heq
  | error e s' =>
      cases ht : run t with
      | ok b t' => rw [hs, ht] at heq; cases heq
      | error f t' =>
          rw [hs, ht] at heq hrel
          exact Or.inr ⟨e, s', t', rfl, by rw [Except.error.inj heq], hrel⟩

/-- **Agreement goes through a program step by step.** What the second part has to cope with is any
    value and any two related stores. -/
theorem Agree.bind {run : Run β} {next : β → Run α} (h : Agree rel run s t)
    (hnext : ∀ b s' t', rel s' t' → Agree rel (next b) s' t') : Agree rel (run >>= next) s t := by
  rcases h.cases with ⟨b, s', t', hs, ht, hrel⟩ | ⟨e, s', t', hs, ht, hrel⟩
  · rw [Agree, bind_of_ok hs, bind_of_ok ht]
    exact hnext b s' t' hrel
  · exact .of_error (bind_of_error hs) (bind_of_error ht) hrel

theorem Agree.map {run : Run β} {f : β → α} (h : Agree rel run s t) : Agree rel (f <$> run) s t := by
  rcases h.cases with ⟨b, s', t', hs, ht, hrel⟩ | ⟨e, s', t', hs, ht, hrel⟩
  · refine Agree.of_ok (a := f b) ?_ ?_ hrel
    · show EStateM.map f run s = _
      rw [EStateM.map, hs]
    · show EStateM.map f run t = _
      rw [EStateM.map, ht]
  · refine Agree.of_error (e := e) ?_ ?_ hrel
    · show EStateM.map f run s = _
      rw [EStateM.map, hs]
    · show EStateM.map f run t = _
      rw [EStateM.map, ht]

theorem Agree.pure (a : α) (h : rel s t) : Agree rel (pure a) s t := ⟨rfl, h⟩

theorem Agree.throw (e : Fault) (h : rel s t) : Agree rel (throw e : Run α) s t := ⟨rfl, h⟩

theorem Agree.check {f : Store → Except Fault α} (hf : f s = f t) (h : rel s t) :
    Agree rel (check f) s t := by
  unfold Agree Run.check
  rw [hf]
  cases f t <;> exact ⟨rfl, h⟩

theorem Agree.read {f : Store → α} (hf : f s = f t) (h : rel s t) : Agree rel (read f) s t :=
  ⟨congrArg Except.ok hf, h⟩

/-- A check changes no store, so what comes next may use that it went well. -/
theorem Agree.check_bind {f : Store → Except Fault β} {next : β → Run α} (hf : f s = f t)
    (h : rel s t) (hnext : ∀ b, f s = .ok b → Agree rel (next b) s t) :
    Agree rel (Run.check f >>= next) s t := by
  cases hs : f s with
  | ok b =>
      have ht : f t = .ok b := hf.symm.trans hs
      rw [Agree, bind_of_ok (check_of_ok hs), bind_of_ok (check_of_ok ht)]
      exact hnext b hs
  | error e =>
      have ht : f t = .error e := hf.symm.trans hs
      exact .of_error (bind_of_error (check_of_error hs)) (bind_of_error (check_of_error ht)) h

theorem Agree.read_bind {f : Store → β} {next : β → Run α} (hf : f s = f t)
    (hnext : Agree rel (next (f s)) s t) : Agree rel (Run.read f >>= next) s t := by
  rw [Agree, Run.read_bind, Run.read_bind, ← hf]
  exact hnext

/-- What comes next may depend on the store as far as both stores give the same. -/
theorem Agree.get_bind {next : Store → Run α} (hsame : next s = next t)
    (hnext : Agree rel (next s) s t) : Agree rel (get >>= next) s t := by
  rw [Agree, Run.get_bind, Run.get_bind, ← hsame]
  exact hnext

theorem Agree.recover {run otherwise : Run α} (h : Agree rel run s t)
    (h' : ∀ s' t', rel s' t' → Agree rel otherwise s' t') : Agree rel (recover run otherwise) s t := by
  rcases h.cases with ⟨a, s', t', hs, ht, hrel⟩ | ⟨e, s', t', hs, ht, hrel⟩
  · exact .of_ok (recover_of_ok hs) (recover_of_ok ht) hrel
  · have hrun {u u' : Store} (hu : run u = .error e u') :
        Run.recover run otherwise u = if e.isAttribute then otherwise u' else .error e u' := by
      rw [Run.recover, hu]
    rw [Agree, hrun hs, hrun ht]
    by_cases he : e.isAttribute
    · rw [if_pos he, if_pos he]
      exact h' s' t' hrel
    · rw [if_neg he, if_neg he]
      exact ⟨rfl, hrel⟩

/-- Questions change no store, so the second one is asked in the stores that the first one was asked in. -/
theorem Agree.recover_check {f g : Store → Except Fault α} (hf : f s = f t) (hg : g s = g t) (h : rel s t) :
    Agree rel (Run.recover (Run.check f) (Run.check g)) s t := by
  have hrun (u : Store) : Run.recover (Run.check f) (Run.check g) u = match f u with
      | .ok a => .ok a u
      | .error e => if e.isAttribute then Run.check g u else .error e u := by
    rw [Run.recover, Run.check]
    cases f u <;> rfl
  rw [Agree, hrun, hrun, hf]
  cases f t with
  | ok a => exact ⟨rfl, h⟩
  | error e =>
      by_cases he : e.isAttribute
      · simp only [he, if_true]
        exact Agree.check hg h
      · simp only [he]
        exact ⟨rfl, h⟩

theorem Agree.update {f : Store → Store} (h : rel (f s) (f t)) : Agree rel (update f) s t := ⟨rfl, h⟩

theorem Agree.ite {c : Prop} [Decidable c] {run run' : Run α} (h : c → Agree rel run s t)
    (h' : ¬ c → Agree rel run' s t) : Agree rel (if c then run else run') s t := by
  by_cases hc : c
  · simpa only [hc, if_true] using h hc
  · simpa only [hc, if_false] using h' hc

theorem Agree.mono {rel' : Store → Store → Prop} {run : Run α} (h : Agree rel run s t)
    (hrel : ∀ s' t', rel s' t' → rel' s' t') : Agree rel' run s t :=
  ⟨h.1, hrel _ _ h.2⟩

end Agree

end Run
end SyntaxTree
