import SyntaxTree.Node.Subtree
import SyntaxTree.Store.Equality
import SyntaxTree.Store.Sequence

/-!
# `Node.Outline` — trees as nested maps

The outline of a node holds its type, its value if it has one, its extra attributes, and the outlines of
its children if it has a list of children. An outline is plain data, read off the store; `writeOutline`
makes the maps and lists that it describes.

Type, value and attributes share one space of names: an attribute named `type` takes the place of the
type, and the list of children comes last and takes the place of an attribute named `nodes`. Attributes
that were replaced by something else than a map may still be a list of pairs.
-/

namespace SyntaxTree

/-- A subtree as plain data. -/
inductive Outline
  | node (fields : Entries Value) (nodes : Option (List Outline))

namespace Outline

/-- All fields but the children. -/
def fields : Outline → Entries Value
  | .node fields _ => fields

/-- The outlines of the children. -/
def nodes : Outline → Option (List Outline)
  | .node _ nodes => nodes

end Outline

namespace Store

/-! ## Entries -/

/-- The entry that an item of a list of pairs stands for. -/
def entryOf (s : Store) (place : Nat) (item : Value) : Except Fault (Key × Value) := do
  match s.items item with
  | .error _ => .error (.noEntry place)
  | .ok [key, v] => do
    s.requireHashable key
    .ok (.ofValue key, v)
  | .ok parts => .error (.wrongEntryLength place parts.length)

/-- The entries that the items of a list of pairs stand for, counted from `place`. -/
def entriesOf (s : Store) (place : Nat) : List Value → Except Fault (Entries Value)
  | [] => .ok []
  | item :: rest => do
    let entry ← s.entryOf place item
    let entries ← entriesOf s (place + 1) rest
    .ok (entry :: entries)

/-- The entries of a map, or of what may stand for one. -/
def entriesIn (s : Store) (v : Value) : Except Fault (Entries Value) :=
  match s.entries? v, s.substitute? v "keys" with
  | some es, _ => .ok es
  | none, some _ => .error (s.refusal v "keys")
  | none, none => do
    let items ← s.items v
    let entries ← s.entriesOf 0 items
    .ok (s.putEach [] entries)

/-! ## Outlines -/

/-- The fields of a node that an outline shows besides its children. -/
def outlineFields (s : Store) (n : NodeId) : Except Fault (Entries Value) := do
  let r := s.node n
  let own : Entries Value := [(.text "type", r.type)]
  let own := if r.value = .null then own else own ++ [(.text "value", r.value)]
  let extra ← s.entriesIn r.attr
  .ok (own.putAll extra)

/-- The outlines of children one by one. -/
def outlineAll (s : Store) (outline : NodeId → Except Fault Outline) :
    List Value → Except Fault (List Outline)
  | [] => .ok []
  | v :: vs => do
    let c ← s.actor "to_dict" v
    let o ← outline c
    let os ← outlineAll s outline vs
    .ok (o :: os)

/-- The outline of the tree below a node, down to a depth. -/
def outlineWithin (s : Store) : Nat → NodeId → Except Fault Outline
  | 0, _ => .error .endless
  | fuel + 1, n => do
    let fields ← s.outlineFields n
    match (s.node n).nodes with
    | none => .ok (.node fields none)
    | some children => do
      let nodes ← s.outlineAll (outlineWithin s fuel) children
      .ok (.node fields (some nodes))

/-- The outline of the tree below a node. -/
def outline (s : Store) (n : NodeId) : Except Fault Outline :=
  outlineWithin s (s.nodes.size + 1) n

mutual

/-- Makes the map that an outline describes. -/
def writeOutline : Outline → Run Value
  | .node fields none => Run.allocate (.map fields)
  | .node fields (some nodes) => do
    let items ← writeOutlines nodes
    let list ← Run.allocate (.collection .list items)
    Run.allocate (.map (fields.put (.text "nodes") list))

/-- Makes the maps that some outlines describe. -/
def writeOutlines : List Outline → Run (List Value)
  | [] => pure []
  | o :: os => do
    let v ← writeOutline o
    let vs ← writeOutlines os
    return v :: vs

end

/-- The tree below a node as nested maps. -/
def toMap (n : NodeId) : Run Value := do
  let o ← Run.check fun s => s.outline n
  writeOutline o

end Store

end SyntaxTree
