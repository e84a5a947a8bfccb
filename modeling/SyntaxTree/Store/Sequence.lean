import SyntaxTree.Store.Display
import SyntaxTree.Store.Equality

/-!
# `Store.Sequence` — values that hold several items

What a value holds when it is gone through, how many items that are, and which item stands at a
position. Not every value that can be gone through has positions: a set has none, and a map is asked
by its keys instead. A negative position counts from the end.
-/

namespace SyntaxTree.Store

/-- What a value holds when it is gone through: the items of a collection, the keys of a map, the
characters of a text, the numbers of a byte string. -/
def items (s : Store) (v : Value) : Except Fault (List Value) :=
  match v, s.object? v with
  | _, some (.collection _ items) => .ok items
  | _, some (.map es) => .ok (es.keys.map Key.value)
  | .text t, _ => .ok (t.toList.map fun c => .text (String.singleton c))
  | .bytes bs, _ => .ok (bs.map fun b => .int b.toNat)
  | v, _ => .error (.notIterable (s.qualifiedKindName v))

/-- The number of items that a value holds. -/
def lengthOf (s : Store) (v : Value) : Except Fault Nat :=
  match s.items v with
  | .ok items => .ok items.length
  | .error _ => .error (.noLength (s.qualifiedKindName v))

/-! ## Positions -/

/-- The positions that exist in sequences of any length. -/
def isAddressable (i : Int) : Bool := -9223372036854775808 ≤ i && i < 9223372036854775808

/-- The place in a list of `length` items that a position means; a negative one counts from the end. -/
def placeOf? (length : Nat) (i : Int) : Option Nat :=
  let place := if i < 0 then i + length else i
  if 0 ≤ place ∧ place < length then some place.toNat else none

/-- A position counted from the start is its own place. -/
theorem placeOf?_of_lt {length i : Nat} (h : i < length) : placeOf? length i = some i := by
  have hneg : ¬ (i : Int) < 0 := by omega
  simp [placeOf?, hneg, h]

/-- The place that a value means in a list of `length` items, or why it means none. -/
def placeOf (s : Store) (sequence : String) (length : Nat) (outside : Fault) (position : Value) :
    Except Fault Nat :=
  match position with
  | .int _ | .bool _ =>
    let i := position.toInt?.getD 0
    match placeOf? length i with
    | some place => .ok place
    | none => .error (if isAddressable i then outside else .indexTooLarge)
  | other => .error (.badPosition sequence (s.qualifiedKindName other))

/-- The item of a list that stands at a position. -/
def listItem (s : Store) (sequence : String) (items : List Value) (position : Value) :
    Except Fault Value := do
  let i ← s.placeOf sequence items.length (.indexOutOfRange sequence) position
  .ok (items[i]?.getD .null)

/-- The item that a value holds at a position or under a key. -/
def itemAt (s : Store) (v position : Value) : Except Fault Value :=
  match v, s.object? v with
  | _, some (.map es) =>
    match es.find? (s.keyAs es (.ofValue position)) with
    | some w => .ok w
    | none => .error (.missingKey (displayScalar position))
  | .cls cls, _ => .error (.classNotSubscriptable cls)
  | _, some (.collection .set _) | _, some (.collection .frozenSet _) =>
    .error (.notSubscriptable (s.kindName v))
  | v, _ =>
    match s.items v with
    | .ok items => s.listItem (s.kindName v) items position
    | .error _ => .error (.notSubscriptable (s.qualifiedKindName v))

/-- Puts an item at a position of a list or under a key of a map. -/
def putItem (s : Store) (v : Value) (key : Key) (item : Value) : Except Fault Store :=
  match v with
  | .object o =>
    match s.object o with
    | .map es => .ok (s.updateObject o fun _ => .map (es.put (s.keyAs es key) item))
    | .collection .list items => do
      let i ← s.placeOf "list" items.length .placeOutOfRange key.value
      .ok (s.updateObject o fun _ => .collection .list (items.set i item))
    | _ => .error (.noItemAssignment (s.qualifiedKindName v))
  | v => .error (.noItemAssignment (s.qualifiedKindName v))

/-! ## Sums -/

/-- The value that `v` becomes when a count is added to it in place. -/
def increase (v : Value) (count : Nat) : Run Value :=
  match v with
  | .int i => pure (.int (i + count))
  | .bool b => pure (.int ((if b then 1 else 0) + count))
  | .float (.nan _) => Run.allocateNaN
  | .float x => pure (.float (x.addInt count))
  | .bytes _ => throw .onlyJoinsBytes
  | v => Run.check fun s =>
    match v, s.object? v with
    | .text _, _ | _, some (.collection .tuple _) => .error (.onlyJoins (s.kindName v))
    | _, some (.collection .list _) => .error (.notIterable "int")
    | v, _ => .error (.notAddable (s.qualifiedKindName v))

/-- Adding to an integer never fails. -/
@[simp] theorem increase_int (i : Int) (count : Nat) : increase (.int i) count = pure (.int (i + count)) :=
  rfl

end SyntaxTree.Store
