import SyntaxTree.Action
import SyntaxTree.Proofs.Mutation
import SyntaxTree.Proofs.Places

/-!
# `Proofs.Chunks` — texts act on trackers

A tracker with integers for its line and its column stands at a place. Consuming a text puts it at the place behind
that text and leaves the rest of the store as it is (`advance_eq`), and so all that is known of places is known of
trackers. In particular it does not matter how a text is cut: two chunks one after the other leave the same store as
both at once, wherever the line feeds are, and nothing consumed is nothing done (`advance_acts`).
-/

namespace SyntaxTree

theorem join_singletons (cs : List Char) : String.join (cs.map String.singleton) = String.ofList cs := by
  induction cs with
  | nil => rfl
  | cons c cs ih => rw [List.map_cons, String.join_cons, ih, ← String.toList_inj]; simp

namespace Store

variable {s s' : Store} {t : ObjectId} {source : Value} {c : Cursor}

/-! ## Where a tracker stands -/

/-- A tracker of a source stands at a place. -/
def StandsAt (s : Store) (t : ObjectId) (source : Value) (c : Cursor) : Prop :=
  s.object t = .tracker source (.int c.line) (.int c.column)

theorem StandsAt.lt_size (h : s.StandsAt t source c) : t < s.objects.size :=
  lt_size_of_object (h ▸ fun heq => (by cases heq))

theorem standing_eq (h : s.StandsAt t source c) : s.standing t = (source, .int c.line, .int c.column) := by
  rw [standing, h]

/-- The store with a tracker of a source at a place. -/
def standAt (s : Store) (t : ObjectId) (source : Value) (c : Cursor) : Store :=
  s.setTracker t source (.int c.line) (.int c.column)

theorem standsAt_standAt (ht : t < s.objects.size) (source : Value) (c : Cursor) :
    (s.standAt t source c).StandsAt t source c :=
  object_setTracker_self s source _ _ ht

/-- A tracker can be put where it stands. -/
theorem standAt_self (h : s.StandsAt t source c) : s.standAt t source c = s := updateObject_same h

/-- Where a tracker stood in between is forgotten. -/
@[simp] theorem standAt_standAt (s : Store) (t : ObjectId) (source : Value) (c d : Cursor) :
    (s.standAt t source c).standAt t source d = s.standAt t source d :=
  updateObject_twice s t _ _

/-- Nothing but a tracker is different. -/
structure Moved (t : ObjectId) (s s' : Store) : Prop where
  nodes : s'.nodes = s.nodes
  object : ∀ o, o ≠ t → s'.object o = s.object o

theorem Moved.node_eq (h : Moved t s s') (n : NodeId) : s'.node n = s.node n := by
  rw [node, node, h.nodes]

theorem moved_standAt (t : ObjectId) (s : Store) (source : Value) (c : Cursor) : Moved t s (s.standAt t source c) :=
  ⟨rfl, fun _ ho => object_updateObject_of_ne s _ ho⟩

/-! ## One chunk -/

/-- A tracker that stands at a place moves past characters as the place does, and nothing else happens. -/
theorem moveText_eq (h : s.StandsAt t source c) (cs : List Char) :
    moveText t cs s = .ok () (s.standAt t source (c.advanceChars cs)) := by
  unfold moveText Cursor.advanceChars
  by_cases hfeeds : Cursor.lineFeeds cs = 0
  · rw [if_pos hfeeds, if_pos hfeeds, moveInLine, Run.read_bind, standing_eq h]
    rfl
  · rw [if_neg hfeeds, if_neg hfeeds]
    -- first the line is counted on, then the column is set
    let behind : Cursor := ⟨c.line + Cursor.lineFeeds cs, c.column⟩
    have hlines : moveLines t (Cursor.lineFeeds cs) s = .ok () (s.standAt t source behind) := by
      rw [moveLines, Run.read_bind, standing_eq h]
      rfl
    have hstands : (s.standAt t source behind).StandsAt t source behind := standsAt_standAt h.lt_size source behind
    rw [Run.bind_of_ok hlines, moveToColumn, Run.read_bind, standing_eq hstands]
    show EStateM.Result.ok () ((s.standAt t source behind).standAt t source
      ⟨behind.line, ((1 + (Cursor.lastLine cs).length : Nat) : Int)⟩) = _
    rw [standAt_standAt, Int.natCast_add]
    rfl

/-- What has an operation itself carries it out. -/
theorem onObject_of_fits {o : ObjectId} {operation : String} {args : List Value} {fits : Object → Bool}
    {run : ObjectId → Run Value} (h : fits (s.object o) = true) :
    onObject (.object o) operation args fits run s = run o s := by
  show (if fits (s.object o) then run o else request (.object o) operation args []) s = _
  rw [h]
  rfl

/-- **Consuming a text puts the tracker behind it.** -/
theorem advance_text (h : s.StandsAt t source c) (text : String) :
    advance t (.text text) s = .ok () (s.standAt t source (c.advance text)) :=
  moveText_eq h text.toList

theorem advance_eq (h : s.StandsAt t source c) (text : String) :
    (Action.advance (.object t) (.text text)).perform s = .ok .null (s.standAt t source (c.advance text)) := by
  rw [Action.perform, onObject_of_fits (by rw [h]), unit, Run.bind_of_ok (advance_text h text)]
  rfl

/-- **Consuming a text moves the tracker past it**, and does nothing else. -/
theorem advance_moves (h : s.StandsAt t source c) (text : String) :
    ∃ s', (Action.advance (.object t) (.text text)).perform s = .ok .null s' ∧
      s'.StandsAt t source (c.advance text) ∧ Moved t s s' :=
  ⟨_, advance_eq h text, standsAt_standAt h.lt_size source _, moved_standAt t s source _⟩

/-! ## One chunk after the other -/

/-- Consumes chunks one after the other. -/
def consume (t : Value) : List String → Run Unit
  | [] => pure ()
  | chunk :: chunks => do
    let _ ← (Action.advance t (.text chunk)).perform
    consume t chunks

/-- **It does not matter how the text was cut.** -/
theorem consume_eq (h : s.StandsAt t source c) (chunks : List String) :
    consume (.object t) chunks s = .ok () (s.standAt t source (c.advance (String.join chunks))) := by
  induction chunks generalizing s c with
  | nil =>
      have hnothing : c.advance (String.join []) = c := Cursor.advanceChars_nil c
      rw [hnothing, standAt_self h]
      rfl
  | cons chunk chunks ih =>
      have hstands := standsAt_standAt h.lt_size source (c.advance chunk)
      rw [consume, Run.bind_of_ok (advance_eq h chunk), ih hstands, standAt_standAt, String.join_cons,
        Cursor.advance_append]

theorem consume_moves (h : s.StandsAt t source c) (chunks : List String) :
    ∃ s', consume (.object t) chunks s = .ok () s' ∧ s'.StandsAt t source (c.advance (String.join chunks)) ∧
      Moved t s s' :=
  ⟨_, consume_eq h chunks, standsAt_standAt h.lt_size source _, moved_standAt t s source _⟩

/-- **Texts act on trackers.** Wherever a tracker stands, two texts one after the other lead to the same store as both
at once, and the empty text leaves the store as it is. A text leads to where a walk over its characters leads, on which
every line feed begins a line and every other character is one column; and there its characters lead as well, when each
of them is consumed by itself. -/
theorem advance_acts (h : s.StandsAt t source c) (text more : String) :
    (do
      let _ ← (Action.advance (.object t) (.text text)).perform
      (Action.advance (.object t) (.text more)).perform) s =
        (Action.advance (.object t) (.text (text ++ more))).perform s ∧
    (Action.advance (.object t) (.text "")).perform s = .ok .null s ∧
    (Action.advance (.object t) (.text text)).perform s =
      .ok .null (s.standAt t source (text.toList.foldl Cursor.step c)) ∧
    consume (.object t) (text.toList.map String.singleton) s =
      .ok () (s.standAt t source (text.toList.foldl Cursor.step c)) := by
  have hwalk : c.advance text = text.toList.foldl Cursor.step c := Cursor.advanceChars_eq_walk c text.toList
  refine ⟨?_, ?_, ?_, ?_⟩
  · have hstands := standsAt_standAt h.lt_size source (c.advance text)
    rw [Run.bind_of_ok (advance_eq h text), advance_eq hstands, standAt_standAt, ← Cursor.advance_append, advance_eq h]
  · have hnothing : c.advance "" = c := Cursor.advance_eq_self.mpr rfl
    rw [advance_eq h, hnothing, standAt_self h]
  · rw [advance_eq h, hwalk]
  · rw [consume_eq h, join_singletons, String.ofList_toList, hwalk]

/-- A tracker that was put before the first line and the first column. -/
def withTrackerAside : Store :=
  (Action.performAll [.newTracker (.text "a.txt"), .assign (.object 0) "line" (.int (-2)),
    .assign (.object 0) "column" (.int 0)] .empty).2

/-- A line that is cut in the middle, and then one that ends where the next chunk begins. -/
theorem advance_acts_aside : withTrackerAside.StandsAt 0 (.text "a.txt") ⟨-2, 0⟩ ∧
    (do
      let _ ← (Action.advance (.object 0) (.text "on\ne")).perform
      (Action.advance (.object 0) (.text "\ntwo")).perform) withTrackerAside =
        .ok .null (withTrackerAside.standAt 0 (.text "a.txt") ⟨0, 4⟩) := by
  have hstands : withTrackerAside.StandsAt 0 (.text "a.txt") ⟨-2, 0⟩ := rfl
  refine ⟨hstands, ?_⟩
  have hboth := (advance_acts hstands "on\ne" "\ntwo").1
  have hwalk := (advance_acts hstands ("on\ne" ++ "\ntwo") "").2.2.1
  rw [hboth, hwalk]
  rfl

end Store
end SyntaxTree
