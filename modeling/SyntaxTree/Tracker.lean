import SyntaxTree.Cursor
import SyntaxTree.Node.Assignment

/-!
# `Tracker` — positions of nodes in the text they come from

A tracker follows the text that a reader consumes. A wrapper is made where a token begins; applied to a
node later on, it stamps the node with the span from there to where the tracker stands by then.

The line and the column of a tracker can be set to any value. As long as they are integers a tracker
moves as a `Cursor` does; otherwise they grow as far as a number can be added to them.
-/

namespace SyntaxTree.Store

/-- Makes a tracker at the start of a text from `source`. -/
def startTracker (source : Value) : Run ObjectId := fun s =>
  .ok s.objects.size (s.addObject (.tracker source (.int Cursor.start.line) (.int Cursor.start.column)))

/-- A tracker at the start of a text from `source`, as a value. -/
def newTracker (source : Value) : Run Value := .object <$> startTracker source

/-- The source, line and column of a tracker. -/
def standing (s : Store) (t : ObjectId) : Value × Value × Value :=
  match s.object t with
  | .tracker source line column => (source, line, column)
  | _ => (.null, .null, .null)

/-- Moves a tracker to a column of its line. -/
def moveInLine (t : ObjectId) (count : Nat) : Run Unit := do
  let (source, line, column) ← Run.read fun s => s.standing t
  let column ← increase column count
  Run.update fun s => s.setTracker t source line column

/-- Moves a tracker some lines on, without a change of its column. -/
def moveLines (t : ObjectId) (count : Nat) : Run Unit := do
  let (source, line, column) ← Run.read fun s => s.standing t
  let line ← increase line count
  Run.update fun s => s.setTracker t source line column

/-- Moves a tracker to a column. -/
def moveToColumn (t : ObjectId) (column : Nat) : Run Unit := do
  let (source, line, _) ← Run.read fun s => s.standing t
  Run.update fun s => s.setTracker t source line (.int column)

/-- Moves a tracker past characters. -/
def moveText (t : ObjectId) (cs : List Char) : Run Unit := do
  if Cursor.lineFeeds cs = 0 then moveInLine t cs.length
  else
    moveLines t (Cursor.lineFeeds cs)
    moveToColumn t (1 + (Cursor.lastLine cs).length)

/-- Consumes a chunk. A list or tuple passes for a text as far as counting goes: without line feeds its
items are columns, and with one the lines are counted before it turns out not to be a text. -/
def advance (t : ObjectId) (chunk : Value) : Run Unit := do
  let s ← get
  match chunk, s.object? chunk with
  | .text text, _ => moveText t text.toList
  | .bytes _, _ => throw .needsBytes
  | _, some (.collection .list items) | _, some (.collection .tuple items) =>
    match items.count (.text "\n") with
    | 0 => moveInLine t items.length
    | lines =>
      moveLines t lines
      throw (s.missing chunk "rindex")
  | _, _ => throw (s.refusal chunk "count")

/-- A wrapper for a token that begins where the tracker stands. -/
def capture (t : ObjectId) : Run Value := do
  let (_, line, column) ← Run.read fun s => s.standing t
  let start ← locationValue line column
  Run.allocate (.wrapper t start [])

/-- Stamps a node with a span; the answer is the node. -/
def stampSpan (start finish source target : Value) : Run Value := do
  let span ← Run.allocate (.position start finish source)
  assignAttribute target "position" span
  return target

/-- Applies a wrapper. -/
def stamp (t : ObjectId) (start target : Value) : Run Value := do
  let (source, line, column) ← Run.read fun s => s.standing t
  let finish ← locationValue line column
  stampSpan start finish source target

@[simp] theorem object_setTracker_self (s : Store) {t : ObjectId} (source line column : Value)
    (h : t < s.objects.size) :
    (s.setTracker t source line column).object t = .tracker source line column := by
  simp [setTracker, h]

@[simp] theorem size_setTracker (s : Store) (t : ObjectId) (source line column : Value) :
    (s.setTracker t source line column).objects.size = s.objects.size := by
  simp [setTracker, updateObject]

end SyntaxTree.Store
