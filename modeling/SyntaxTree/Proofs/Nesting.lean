import SyntaxTree.Proofs.Spans

/-!
# `Proofs.Nesting` — spans of one tracker are nested or ordered

A wrapper holds on to an old place, and the place where the tracker stands is looked up when the wrapper is
applied. So many wrappers may be open at a time, and each may be applied more than once.

`TrackerRun` says how a store goes on from one moment to the next while wrappers of one tracker are taken and applied,
texts are consumed, and whatever else happens that leaves the tracker alone. One step moves the tracker ahead or
leaves it where it stands, and changes no beginning of a wrapper (`Happens.stands`); so over a whole run the tracker
stands at `placeAt`, which only grows. Every span that is stamped goes from the place at one moment to the place at a
later one (`Stamping.places`), and moments are ordered.
-/

namespace SyntaxTree

open Store

/-- What happens next. -/
inductive TrackerEvent
  /-- A wrapper is taken. -/
  | capture (w : ObjectId)
  | advance (text : String)
  /-- A wrapper is applied to a node. -/
  | apply (w : ObjectId) (n : NodeId)
  /-- Something that is not done to the tracker. -/
  | other

namespace TrackerEvent

/-- Where a tracker stands after an event. -/
def place (c : Cursor) : TrackerEvent → Cursor
  | advance text => c.advance text
  | _ => c

theorem le_place (c : Cursor) (e : TrackerEvent) : c ≤ e.place c := by
  cases e with
  | advance text => exact c.le_advance text
  | _ => exact le_refl c

/-- Only an event that consumes something moves the tracker. -/
theorem place_eq_self {c : Cursor} {e : TrackerEvent} : e.place c = c ↔ ∀ text, e = advance text → text = "" := by
  cases e with
  | advance text =>
      refine Cursor.advance_eq_self.trans ⟨fun h more hmore => ?_, fun h => h text rfl⟩
      cases hmore
      exact h
  | _ => exact ⟨fun _ _ h => (by cases h), fun _ => rfl⟩

/-- The store after an event has been carried out. Where something else happens, nothing has to. -/
def follow (t : ObjectId) (s : Store) : TrackerEvent → Store
  | capture _ => Run.after ((Action.capture (.object t)).perform s)
  | advance text => Run.after ((Action.advance (.object t) (.text text)).perform s)
  | apply w n => Run.after ((Action.call (.object w) (.node n)).perform s)
  | other => s

end TrackerEvent

/-- An event of a tracker leads from one store to another. A call may fail; what it has done until then counts. -/
inductive Happens (t : ObjectId) (s : Store) : TrackerEvent → Store → Prop
  | capture {w : ObjectId} {s' : Store} : (Action.capture (.object t)).perform s = .ok (.object w) s' →
      Happens t s (.capture w) s'
  | advance (text : String) :
      Happens t s (.advance text) (Run.after ((Action.advance (.object t) (.text text)).perform s))
  | apply {w : ObjectId} {start : Value} {fields : Entries Value} (n : NodeId) :
      s.object w = .wrapper t start fields →
      Happens t s (.apply w n) (Run.after ((Action.call (.object w) (.node n)).perform s))
  | other {s' : Store} : Steady t s s' → s'.object t = s.object t → Happens t s .other s'

section Step

variable {t w : ObjectId} {s s' : Store} {source : Value} {c : Cursor} {e : TrackerEvent}

/-- **One event moves the tracker as it moves a place**, and leaves all beginnings of wrappers as they are. -/
theorem Happens.stands (h : Happens t s e s') (ht : s.StandsAt t source c) :
    s'.StandsAt t source (e.place c) ∧ Steady t s s' := by
  cases h with
  | capture hrun =>
      obtain ⟨w', u, hrun', hadded, -⟩ := capture_begins ht
      cases hrun.symm.trans hrun'
      exact ⟨ht.mono hadded.toExtends, hadded.toExtends.steady t⟩
  | advance text =>
      obtain ⟨u, hrun, hstands, hmoved⟩ := advance_moves ht text
      rw [hrun]
      exact ⟨hstands, hmoved.steady ht⟩
  | @apply w start fields n hw =>
      by_cases hn : (s.withSpan start source c).HasAttributes n
      · obtain ⟨u, hrun, -, hstands, hsteady⟩ := call_stamps ht hw hn
        rw [hrun]
        exact ⟨hstands, hsteady⟩
      · obtain ⟨f, u, hrun, hstands, hsteady⟩ := call_fails ht hw hn
        rw [hrun]
        exact ⟨hstands, hsteady⟩
  | other hsteady hsame => exact ⟨hsame.trans ht, hsteady⟩

/-- A wrapper that is taken begins where the tracker stands. -/
theorem Happens.begins (h : Happens t s (.capture w) s') (ht : s.StandsAt t source c) : s'.BeginsAt t w c := by
  cases h with
  | capture hrun =>
      obtain ⟨w', u, hrun', -, hbegins⟩ := capture_begins ht
      cases hrun.symm.trans hrun'
      exact hbegins

end Step

/-! ## Runs -/

/-- At each moment an event leads to the store of the next. The tracker stands at a place in the beginning. A run
that ends is one after which nothing happens any more. -/
structure TrackerRun (t : ObjectId) (source : Value) (c : Cursor) (events : Nat → TrackerEvent) (stores : Nat → Store) :
    Prop where
  start : (stores 0).StandsAt t source c
  step : ∀ i, Happens t (stores i) (events i) (stores (i + 1))

/-- Where the tracker stands at a moment. -/
def placeAt (c : Cursor) (events : Nat → TrackerEvent) : Nat → Cursor
  | 0 => c
  | i + 1 => (events i).place (placeAt c events i)

/-- The wrapper that is taken at the moment `i` is applied to a node at the later moment `j`, and after that the
node spans `a` and `b`. -/
def Stamping (events : Nat → TrackerEvent) (stores : Nat → Store) (i j : Nat) (a b : Cursor) : Prop :=
  ∃ w n source, i < j ∧ events i = .capture w ∧ events j = .apply w n ∧
    (Action.call (.object w) (.node n)).perform (stores j) = .ok (.node n) (stores (j + 1)) ∧
    (stores (j + 1)).Spans n a b source

section Run

variable {t : ObjectId} {source : Value} {c a b d e : Cursor} {events : Nat → TrackerEvent} {stores : Nat → Store}
  {i j k l : Nat}

/-- Places only grow. -/
theorem placeAt_mono (c : Cursor) (events : Nat → TrackerEvent) : Monotone (placeAt c events) :=
  monotone_nat_of_le_succ fun i => (events i).le_place _

/-- **A tracker stands still exactly while nothing is consumed.** -/
theorem placeAt_eq_iff (hij : i ≤ j) : placeAt c events i = placeAt c events j ↔
    ∀ k, i ≤ k → k < j → ∀ text, events k = .advance text → text = "" := by
  induction j, hij using Nat.le_induction with
  | base => exact ⟨fun _ k hik hki => absurd hki (by omega), fun _ => rfl⟩
  | succ j hij ih =>
      have hfirst := placeAt_mono c events hij
      have hlast := placeAt_mono c events (Nat.le_succ j)
      constructor
      · intro h k hik hkj
        have hsame : placeAt c events i = placeAt c events j := le_antisymm hfirst (h ▸ hlast)
        rcases Nat.lt_succ_iff_lt_or_eq.mp hkj with hlt | rfl
        · exact ih.mp hsame k hik hlt
        · exact TrackerEvent.place_eq_self.mp (h.symm.trans hsame)
      · intro h
        have hsame := ih.mpr fun k hik hkj => h k hik (by omega)
        rw [hsame]
        exact (TrackerEvent.place_eq_self.mpr (h j hij (Nat.lt_succ_self j))).symm

/-- **At every moment of a run the tracker stands at its place.** -/
theorem TrackerRun.stands (h : TrackerRun t source c events stores) (i : Nat) :
    (stores i).StandsAt t source (placeAt c events i) := by
  induction i with
  | zero => exact h.start
  | succ i ih => exact ((h.step i).stands ih).1

/-- What a wrapper begins with stays over the whole run. -/
theorem TrackerRun.steady (h : TrackerRun t source c events stores) (hij : i ≤ j) : Steady t (stores i) (stores j) := by
  induction j, hij using Nat.le_induction with
  | base => exact .refl t _
  | succ j _ ih => exact ih.trans ((h.step j).stands (h.stands j)).2

theorem TrackerRun.begins (h : TrackerRun t source c events stores) {w : ObjectId} (hi : events i = .capture w)
    (hij : i < j) : (stores j).BeginsAt t w (placeAt c events i) :=
  ((hi ▸ h.step i).begins (h.stands i)).mono (h.steady hij)

/-- **A stamped span goes from the place at one moment to the place at another.** -/
theorem Stamping.places (hs : Stamping events stores i j a b) (h : TrackerRun t source c events stores) :
    i < j ∧ a = placeAt c events i ∧ b = placeAt c events j := by
  obtain ⟨w, n, source', hij, hi, hj, hrun, hspans⟩ := hs
  obtain ⟨o, fields, hw, ho⟩ := h.begins hi hij
  by_cases hn : ((stores j).withSpan (.object o) source (placeAt c events j)).HasAttributes n
  · obtain ⟨u, hrun', hspans', -⟩ := call_stamps (h.stands j) hw hn
    cases hrun.symm.trans hrun'
    obtain ⟨ha, hb, -⟩ := hspans.unique (hspans' o _ rfl ho)
    exact ⟨hij, ha, hb⟩
  · obtain ⟨f, u, hrun', -⟩ := call_fails (h.stands j) hw hn
    cases hrun.symm.trans hrun'

/-- A wrapper that is applied to a node with extra attributes stamps it. -/
theorem TrackerRun.stamps (h : TrackerRun t source c events stores) {w : ObjectId} {n : NodeId} (hij : i < j)
    (hi : events i = .capture w) (hj : events j = .apply w n) (hn : (stores j).HasAttributes n) :
    Stamping events stores i j (placeAt c events i) (placeAt c events j) := by
  obtain ⟨u, hrun, hspans⟩ := call_spans (h.stands j) (h.begins hi hij) hn
  have hstep := h.step j
  rw [hj] at hstep
  generalize hu' : stores (j + 1) = u' at hstep
  cases hstep with
  | apply _ _ =>
      rw [hrun] at hu'
      obtain rfl : stores (j + 1) = u := hu'
      exact ⟨w, n, source, hij, hi, hj, hrun, hspans⟩

/-- **The spans of one tracker are nested or ordered**, however taking wrappers, consuming text and applying
wrappers are mixed. Wrappers stamp the nodes that they are applied to. No span ends before it starts, and it is empty
exactly if no text was consumed in between. If one wrapper is taken no later than another and applied no earlier, its
span contains the other one; and if it is applied no later than the other is taken, its span ends before the other
starts. -/
theorem stampings_nested_or_ordered (h : TrackerRun t source c events stores) :
    (∀ i j w n, i < j → events i = .capture w → events j = .apply w n → (stores j).HasAttributes n →
      ∃ a b, Stamping events stores i j a b) ∧
    (∀ i j a b, Stamping events stores i j a b →
      a ≤ b ∧ (a = b ↔ ∀ k, i < k → k < j → ∀ text, events k = .advance text → text = "")) ∧
    ∀ i j a b k l d e, Stamping events stores i j a b → Stamping events stores k l d e →
      (i ≤ k → l ≤ j → a ≤ d ∧ e ≤ b) ∧ (j ≤ k → b ≤ d) := by
  refine ⟨fun i j w n hij hi hj hn => ⟨_, _, h.stamps hij hi hj hn⟩, fun i j a b hs => ?_,
    fun i j a b k l d e hs hs' => ?_⟩
  · obtain ⟨hij, rfl, rfl⟩ := hs.places h
    obtain ⟨w, n, -, -, hi, -⟩ := hs
    refine ⟨placeAt_mono c events hij.le, (placeAt_eq_iff hij.le).trans ⟨fun hempty k hik => hempty k hik.le, ?_⟩⟩
    -- at the moment `i` itself a wrapper is taken
    intro hempty k hik hkj text hk
    rcases Nat.lt_or_eq_of_le hik with hlt | rfl
    · exact hempty k hlt hkj text hk
    · rw [hi] at hk
      cases hk
  · obtain ⟨-, rfl, rfl⟩ := hs.places h
    obtain ⟨-, rfl, rfl⟩ := hs'.places h
    exact ⟨fun hik hlj => ⟨placeAt_mono c events hik, placeAt_mono c events hlj⟩, fun hjk => placeAt_mono c events hjk⟩

end Run

/-! ## A run -/

/-- Two nodes and a tracker that stands at the start of a text. -/
def twoNodesAndTracker : Store :=
  (Action.performAll [.create .node .empty, .create .node .empty, .newTracker (.text "a.txt")] .empty).2

/-- Two wrappers are open at a time: the one that is taken first is applied last. -/
def overlapping : Nat → TrackerEvent
  | 0 => .capture 4
  | 1 => .advance "a\n"
  | 2 => .capture 6
  | 3 => .advance "b"
  | 4 => .apply 6 0
  | 5 => .apply 4 1
  | _ => .other

/-- The stores that an event after the other leads to. -/
def storesOf (t : ObjectId) (s : Store) (events : Nat → TrackerEvent) : Nat → Store
  | 0 => s
  | i + 1 => (events i).follow t (storesOf t s events i)

/-- What the two wrappers stamp is nested. -/
theorem stampings_overlapping :
    let stores := storesOf 2 twoNodesAndTracker overlapping
    TrackerRun 2 (.text "a.txt") .start overlapping stores ∧
      Stamping overlapping stores 0 5 ⟨1, 1⟩ ⟨2, 2⟩ ∧ Stamping overlapping stores 2 4 ⟨2, 1⟩ ⟨2, 2⟩ ∧
      (⟨1, 1⟩ : Cursor) ≤ ⟨2, 1⟩ ∧ (⟨2, 2⟩ : Cursor) ≤ ⟨2, 2⟩ := by
  intro stores
  have htracks : TrackerRun 2 (.text "a.txt") .start overlapping stores := by
    refine ⟨rfl, fun i => ?_⟩
    match i with
    | 0 => exact .capture rfl
    | 1 => exact .advance "a\n"
    | 2 => exact .capture rfl
    | 3 => exact .advance "b"
    | 4 => exact .apply 0 rfl
    | 5 => exact .apply 1 rfl
    | i + 6 => exact .other (.refl 2 _) rfl
  obtain ⟨hstamps, -, hordered⟩ := stampings_nested_or_ordered htracks
  obtain ⟨a, b, houter⟩ := hstamps 0 5 4 1 (by decide) rfl rfl ⟨1, [], rfl, rfl⟩
  obtain ⟨d, e, hinner⟩ := hstamps 2 4 6 0 (by decide) rfl rfl ⟨0, [], rfl, rfl⟩
  obtain ⟨hstart, hend⟩ := (hordered _ _ _ _ _ _ _ _ houter hinner).1 (by decide) (by decide)
  obtain ⟨-, rfl, rfl⟩ := houter.places htracks
  obtain ⟨-, rfl, rfl⟩ := hinner.places htracks
  have h₂ : placeAt .start overlapping 2 = ⟨2, 1⟩ := by decide
  have h₄ : placeAt .start overlapping 4 = ⟨2, 2⟩ := by decide
  have h₅ : placeAt .start overlapping 5 = ⟨2, 2⟩ := by decide
  rw [h₂] at hinner hstart
  rw [h₄] at hinner hend
  rw [h₅] at houter hend
  exact ⟨htracks, houter, hinner, hstart, hend⟩

end SyntaxTree
