import SyntaxTree.Store.Equality
import SyntaxTree.Store.Sequence

/-!
# `Store.Field` — named fields outside of the fixed ones

The extra attributes of a node and the fields that were set on some other object, by name; what is
missing is a fault that names the class. The fixed fields of a node have their own functions, since they
never are missing.

What is asked of a child, a parent or an attribute map may be asked of any value. `actor` finds the node
that carries an operation out: the value itself, or the node whose operation the value has as a field.
-/

namespace SyntaxTree.Store

/-- A name that begins with two underscores is never looked for among the extra attributes. -/
def isReservedName (name : String) : Bool := name.toList.take 2 == ['_', '_']

/-- The field of an object that is no node. -/
def freeField? (s : Store) (v : Value) (name : String) : Option Value :=
  match s.object? v with
  | some o => o.freeFields?.bind fun fields => fields.find? (.text name)
  | none => none

/-- The fault that a value that is no node has no attribute of a name. -/
def missing (s : Store) (v : Value) (name : String) : Fault :=
  match v with
  | .cls cls => .missingOnClass cls name
  | .node _ => if isReservedName name then .missingReserved name else .missingAttribute (s.kindName v) name
  | v => .missingAttribute (s.qualifiedKindName v) name

/-- The field of an object that is no node, or the fault that it is missing. -/
def freeField (s : Store) (v : Value) (name : String) : Except Fault Value :=
  match s.freeField? v name with
  | some w => .ok w
  | none => .error (s.missing v name)

/-- An extra attribute of a node, or the fault that it is missing. -/
def extra (s : Store) (n : NodeId) (name : String) : Except Fault Value :=
  if isReservedName name then .error (.missingReserved name)
  else
    match s.itemAt (s.node n).attr (.text name) with
    | .error (.missingKey _) => .error (.missingAttribute (s.node n).cls.name name)
    | found => found

/-- Sets an extra attribute of a node. -/
def setExtra (s : Store) (n : NodeId) (key : Key) (v : Value) : Except Fault Store :=
  s.putItem (s.node n).attr key v

/-- Sets a field of an object that is no node. -/
def setFreeField (s : Store) (o : ObjectId) (name : String) (v : Value) : Store :=
  s.updateObject o (Object.mapFreeFields fun fields => fields.put (.text name) v)

/-- What a value that does not have an operation itself has under its name. -/
def substitute? (s : Store) (v : Value) (operation : String) : Option Value :=
  match v with
  | .node n => (s.attributes n).find? (.text operation)
  | v => s.freeField? v operation

/-- Why an operation cannot be called on a value that does not have it itself: the value has something
else under that name, or nothing. -/
def refusal (s : Store) (v : Value) (operation : String) : Fault :=
  match s.substitute? v operation with
  | some w => .notCallable (s.qualifiedKindName w)
  | none => s.missing v operation

/-- The node that carries out an operation that is asked of a value. -/
def actor (s : Store) (operation : String) : Value → Except Fault NodeId
  | .node n => .ok n
  | v =>
    match (s.freeField? v operation).bind s.object? with
    | some (.method (.node n) name) => if name = operation then .ok n else .error (s.refusal v operation)
    | _ => .error (s.refusal v operation)

/-- A node carries out its operations itself. -/
@[simp] theorem actor_node (s : Store) (operation : String) (n : NodeId) :
    s.actor operation (.node n) = .ok n := rfl

/-- The operations that trackers and matchers have. -/
def ownOperations : Object → List String
  | .tracker .. => ["advance", "position"]
  | .matcher .. => ["matches"]
  | _ => []

/-- The names of the fields of an object whose class fixes them. -/
def fixedFields? : Object → Option (List String)
  | .location .. => some ["line", "column"]
  | .position .. => some ["start", "end", "source"]
  | .matcher .. => some ["kind", "target"]
  | .tracker .. => some ["source", "line", "column"]
  | _ => none

end SyntaxTree.Store
