import SyntaxTree.Store.Field

/-!
# `Node.Index` — where a node stands among its siblings

The position of a node is never stored as a fact. A hint remembers where the node was put last; reading
the index trusts the hint only if this very node stands there, and otherwise looks through the siblings
and remembers what it finds. `scanIndex` is the same answer without any hint.

The siblings of a node are the children of its parent, whether or not the node is one of them. A parent
from elsewhere may have no list of children, or something else under that name, which then is used as
far as it can be counted, asked by position and gone through.
-/

namespace SyntaxTree

/-- What a node has for siblings. -/
inductive Siblings
  | absent
  | nodes (children : List Value)
  /-- What a parent from elsewhere has in the place of a list of children. -/
  | other (v : Value)
deriving DecidableEq, Repr, Inhabited

namespace Siblings

/-- The siblings in order. -/
def items (s : Store) : Siblings → Except Fault (List Value)
  | absent => .ok []
  | nodes children => .ok children
  | other v => s.items v

/-- The number of siblings. -/
def count (s : Store) : Siblings → Except Fault Nat
  | absent => .ok 0
  | nodes children => .ok children.length
  | other v => s.lengthOf v

/-- The sibling at a position. -/
def itemAt (s : Store) (position : Value) : Siblings → Except Fault Value
  | absent => .error (.notSubscriptable "NoneType")
  | nodes children => s.listItem "list" children position
  | other v => s.itemAt v position

/-- Whether there is any sibling. -/
def isPresent (s : Store) : Siblings → Bool
  | absent => false
  | nodes children => !children.isEmpty
  | other v => s.truthy v

end Siblings

namespace Store

/-- The parent of a node, or null. -/
def parentValue (s : Store) (n : NodeId) : Value := (s.node n).parent.getD .null

/-- The value that stands for "not among the siblings". -/
def detached (s : Store) (n : NodeId) : Value := .int (s.node n).cls.detached

/-- Sets the position hint of a node. -/
def setHint (s : Store) (n : NodeId) (hint : Value) : Store :=
  s.updateNode n fun r => { r with hint }

/-! ## Siblings -/

/-- What a parent from elsewhere has for children. If it has none, an extra attribute of the node under
the name of the property stands in. -/
def foreignSiblings (s : Store) (n : NodeId) (parent : Value) : Except Fault Value :=
  match s.freeField? parent "nodes" with
  | some v => .ok v
  | none => s.extra n "siblings"

/-- The children of the parent of a node, itself included. -/
def siblings (s : Store) (n : NodeId) : Except Fault Siblings :=
  match (s.node n).parent with
  | none => .ok .absent
  | some (.node p) => .ok ((s.node p).nodes.elim .absent .nodes)
  | some p => do
    match ← s.foreignSiblings n p with
    | .null => .ok .absent
    | v => .ok (.other v)

/-! ## Hints -/

/-- Whether a hint is zero or above; only a number can be compared with zero. -/
def hintIsNonneg (s : Store) : Value → Except Fault Bool
  | .float x => .ok x.nonneg
  | hint =>
    match hint.toInt? with
    | some i => .ok (0 ≤ i)
    | none => .error (.notOrdered (s.qualifiedKindName hint))

/-- Whether a hint that is a number is below a count. -/
def hintIsBelow (count : Nat) : Value → Bool
  | .float x => x.ltInt count
  | hint => hint.toInt?.any (· < (count : Int))

/-- Whether a hint is a position of the node among the siblings. -/
def hintHolds (s : Store) (siblings : Siblings) (n : NodeId) (hint : Value) : Except Fault Bool := do
  if ← s.hintIsNonneg hint then
    if hintIsBelow (← siblings.count s) hint then
      let found ← siblings.itemAt s hint
      .ok (found == .node n)
    else .ok false
  else .ok false

/-! ## The index -/

/-- The first position of a node in a list. -/
def position? (siblings : List Value) (n : NodeId) : Option Nat := siblings.idxOf? (.node n)

/-- The position of a node in a list, or the value for "not there". -/
def scanned (s : Store) (siblings : List Value) (n : NodeId) : Value :=
  (position? siblings n).elim (s.detached n) fun i => .int i

/-- The index of a node by a scan of its siblings, which renews the hint. -/
def rescan (n : NodeId) (siblings : Siblings) : Run Value := do
  let shown ← shownInRecord (.node n)
  Run.update fun s => s.note (.cacheMiss shown)
  let items ← Run.check siblings.items
  let found ← Run.read fun s => s.scanned items n
  Run.update fun s => s.setHint n found
  return found

/-- The index of a node by a scan alone. -/
def scanIndex (s : Store) (n : NodeId) : Except Fault Value := do
  match ← s.siblings n with
  | .absent => .ok (s.detached n)
  | siblings => do
    let items ← siblings.items s
    .ok (s.scanned items n)

/-- The index of a node by the hint, or by a scan that renews the hint. A store that does not trust
hints scans and leaves the hint alone. -/
def locate (n : NodeId) : Run Value := do
  let s ← get
  if !s.trustsHints then Run.check fun s => s.scanIndex n
  else
    match ← Run.check fun s => s.siblings n with
    | .absent => return s.detached n
    | siblings =>
      let hint := (s.node n).hint
      if ← Run.check fun s => s.hintHolds siblings n hint then return hint
      else rescan n siblings

/-- Reads the index of a node. -/
def readIndex (n : NodeId) : Run Value :=
  Run.recover (locate n) (Run.check fun s => s.extra n "index")

@[simp] theorem node_setHint_self (s : Store) {n : NodeId} (hint : Value) (h : n < s.nodes.size) :
    (s.setHint n hint).node n = { s.node n with hint } := by
  simp [setHint, h]

theorem node_setHint_of_ne (s : Store) {n m : NodeId} (hint : Value) (h : m ≠ n) :
    (s.setHint n hint).node m = s.node m :=
  node_updateNode_of_ne s _ h

/-- Setting a hint changes no field but the hint. -/
theorem children_setHint (s : Store) (n m : NodeId) (hint : Value) :
    (s.setHint n hint).children m = s.children m := by
  by_cases hm : m = n
  · subst hm
    by_cases h : m < s.nodes.size
    · simp [children, h]
    · simp [children, setHint, updateNode, node, Array.getD_eq_getD_getElem?, h]
  · simp [children, node_setHint_of_ne s hint hm]

/-- An integer hint holds exactly if this very node stands there. -/
theorem hintHolds_int (s : Store) (children : List Value) (n : NodeId) (i : Nat) :
    s.hintHolds (.nodes children) n (.int i) = .ok (children[i]? == some (.node n)) := by
  by_cases h : i < children.length
  · have hplace := placeOf?_of_lt h
    simp [hintHolds, hintIsNonneg, hintIsBelow, Value.toInt?, Siblings.count, Siblings.itemAt,
      listItem, placeOf, hplace, h, bind, Except.bind]
  · simp [hintHolds, hintIsNonneg, hintIsBelow, Value.toInt?, Siblings.count, h, bind, Except.bind]

/-- With a node for a parent the siblings are its children. -/
theorem siblings_of_parent (s : Store) {n p : NodeId} (h : (s.node n).parent = some (.node p)) :
    s.siblings n = .ok ((s.node p).nodes.elim .absent .nodes) := by
  simp [siblings, h]

/-! ## What is asked of children and parents

A child or a parent is a node, or an object from elsewhere that passes for one. Either has a type, a
parent and an index; a node always has them, and any other value only if it has a field of that name. -/

/-- The type of a child or a parent. -/
def typeOf (s : Store) : Value → Except Fault Value
  | .node n => .ok (s.node n).type
  | v => s.freeField v "type"

/-- The parent of a child or a parent, or null. -/
def parentOf (s : Store) : Value → Except Fault Value
  | .node n => .ok (s.parentValue n)
  | v => s.freeField v "parent"

/-- The index of a child or a parent. -/
def indexOf : Value → Run Value
  | .node n => readIndex n
  | v => Run.check fun s => s.freeField v "index"

end Store

end SyntaxTree
