import SyntaxTree.Node.Extra
import SyntaxTree.Node.Mutation
import SyntaxTree.Node.Signature

/-!
# `Node.Construction` — filling new nodes

A node is made from a value, a type and a parent, or from a map of fields. In the latter the names of
stored fields set these, names that the class reserves are dropped, and all others become extra
attributes; the children are added after all other fields are read, and only if every one of them
passes for a node. Of two names for the same field the later one decides.

A parent is linked at once, but the new node is not put into its list.
-/

namespace SyntaxTree

/-- What a node is made from. -/
structure Construction where
  value : Value
  type : Value
  parent : Value
  /-- Called with the new node at the end, if there is one. -/
  position : Value
deriving Inhabited

namespace Construction

/-- Nothing given at all. -/
def empty : Construction := ⟨.null, .null, .null, .null⟩

/-- What a node is made from, by the names of the arguments. -/
def ofArguments (given : Entries Value) : Construction :=
  ⟨given.argument "value", given.argument "type", given.argument "parent", given.argument "position"⟩

end Construction

namespace Store

/-- Merges one field into a new node; the answer is what was last given for its children. -/
def mergeField (n : NodeId) (children : Value) (key : Key) (v : Value) : Run Value := do
  let s ← get
  if isReservedKey (s.node n).cls key then
    Run.update fun s => s.note (.droppedField (shownKey key))
    return children
  match key with
  | .text "type" => assignMember n "type" v .type; return children
  | .text "value" | .text "val" => assignMember n "value" v .value; return children
  | .text "nodes" | .text "children" => return v
  | .text "parent" =>
    if v ≠ .null then assignParent n v
    return children
  | key => assignExtra n key v; return children

/-- Merges fields one by one; the answer is what was last given for the children. -/
def mergeEach (n : NodeId) (children : Value) : Entries Value → Run Value
  | [] => pure children
  | (key, v) :: rest => do
    let children ← mergeField n children key v
    mergeEach n children rest

/-- Refuses children of which one does not pass for a node. -/
def requireNodes (s : Store) (action : String) : List Value → Except Fault Unit
  | [] => .ok ()
  | v :: vs => do
    s.requireNode action v
    requireNodes s action vs

/-- Adds children one by one. -/
def pushAll (n : NodeId) : List Value → Run Unit
  | [] => pure ()
  | v :: vs => do
    let _ ← push n v
    pushAll n vs

/-- Merges a map of fields into a new node. -/
def mergeFields (n : NodeId) (fields : Entries Value) : Run Unit := do
  let children ← mergeEach n .null fields
  if children ≠ .null then
    let items ← Run.check fun s => s.items children
    Run.check fun s => s.requireNodes "nodes" items
    pushAll n items

/-- A new node without anything in it. -/
def blank (cls : NodeClass) : Run NodeId := do
  let attr ← Run.allocate (.map [])
  Run.allocateNode (.blank cls attr)

/-- Fills a new node from a value and a type, or from a map of fields; the answer is the parent that was
given. What is given for a type and is not a text is taken for the parent. -/
def fill (n : NodeId) (given : Construction) : Run Value := do
  let s ← get
  match s.entries? given.value, given.type with
  | some fields, _ => mergeFields n fields; return given.parent
  | none, .null | none, .text _ =>
    set (s.updateNode n fun r => { r with type := given.type, value := given.value })
    return given.parent
  | none, parent =>
    set (s.updateNode n fun r => { r with value := given.value })
    return parent

/-- Fills a new node and links its parent. -/
def construct (n : NodeId) (given : Construction) : Run Unit := do
  let parent ← fill n given
  if parent ≠ .null then assignParent n parent

/-- Makes a node, except for calling its position. -/
def createUnplaced (cls : NodeClass) (given : Construction) : Run NodeId := do
  let n ← blank cls
  construct n given
  return n

/-- Empties a node and fills it anew. -/
def reconstruct (n : NodeId) (given : Construction) : Run Unit := do
  let attr ← Run.allocate (.map [])
  Run.update fun s => s.updateNode n fun r => .blank r.cls attr
  construct n given

end Store

end SyntaxTree
