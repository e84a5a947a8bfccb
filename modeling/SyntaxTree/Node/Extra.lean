import SyntaxTree.Node.Assignment

/-!
# `Node.Extra` — the extra attributes as one map

The extra attributes of a node can be looked up by key, taken as a whole, and merged with a map. Merging
drops the names that the class reserves for computed properties, and writes a debug record for each.
-/

namespace SyntaxTree.Store

/-- Looks an extra attribute up; null as the name stands for the whole map. -/
def getAttributes (s : Store) (n : NodeId) (name fallback : Value) : Except Fault Value :=
  if name = .null then .ok (s.node n).attr
  else
    match s.entries? (s.node n).attr with
    | none => .error (s.refusal (s.node n).attr "get")
    | some es => do
      s.requireHashable name
      .ok ((es.find? (s.keyAs es (.ofValue name))).getD fallback)

/-- Whether a class of nodes keeps a key out of the extra attributes. -/
def isReservedKey (cls : NodeClass) : Key → Bool
  | .text name => name ∈ cls.reserved
  | _ => false

/-- The text of a key in a debug record. -/
def shownKey (key : Key) : String := displayScalar key.value

/-- Merges entries into the extra attributes, one by one; reserved names are dropped. -/
def mergeAttributes (n : NodeId) : Entries Value → Run Unit
  | [] => pure ()
  | (key, v) :: rest => do
    let s ← get
    if isReservedKey (s.node n).cls key then
      Run.update fun s => s.note (.droppedAttribute (shownKey key))
    else assignExtra n key v
    mergeAttributes n rest

/-- The entries of an optional map; anything that counts as false stands for the empty one. -/
def mappingEntries (s : Store) (v : Value) : Except Fault (Entries Value) :=
  if s.truthy v then
    match s.entries? v with
    | some es => .ok es
    | none => .error (.notMapping (s.qualifiedKindName v))
  else .ok []

/-- Sets extra attributes from a map and from named values, which come after the map. -/
def setAttributes (n : NodeId) (mapping : Value) (named : Entries Value) : Run Unit := do
  let es ← Run.check fun s => s.mappingEntries mapping
  mergeAttributes n (es.putAll named)

end SyntaxTree.Store
