import SyntaxTree.Node.Member
import SyntaxTree.Node.Relations

/-!
# `Node.Attribute` — reading attributes by name

On a node a member is read as what it means, and every other name is an extra attribute. The objects
that are not nodes have their own few attributes. A list of children that is read is a snapshot.
-/

namespace SyntaxTree.Store

/-- A list of values as an object, or null. -/
def listValue : Option (List Value) → Run Value
  | none => pure .null
  | some items => Run.allocate (.collection .list items)

/-- A tuple of texts. -/
def namesTuple (names : List String) : Run Value := Run.allocateTuple (names.map .text)

/-- An immutable set of texts. -/
def namesSet (names : List String) : Run Value :=
  Run.allocate (.collection .frozenSet (names.map .text))

/-- An operation of a value, taken as a value. Each time it is taken it is a new one. -/
def operationOf (owner : Value) (name : String) : Run Value := Run.allocate (.method owner name)

/-- An operation that belongs to the class of nodes itself, taken as a value. There is only one. -/
def classOperation (name : String) : Run Value := fun s =>
  match s.classOperation? name with
  | some o => .ok (.object o) s
  | none => operationOf (.cls NodeClass.node.name) name s

/-! ## Nodes -/

/-- The siblings of a node as a value. -/
def readSiblings (n : NodeId) : Run Value :=
  Run.recover
    (do
      let s ← get
      match (s.node n).parent with
      | none => return .null
      | some (.node p) => listValue (s.node p).nodes
      | some p => Run.check fun s => s.foreignSiblings n p)
    (Run.check fun s => s.extra n "siblings")

/-- Reads what the class of nodes has under a name. -/
def readMember (n : NodeId) (name : String) : Member → Run Value
  | .type => Run.read fun s => (s.node n).type
  | .value => Run.read fun s => (s.node n).value
  | .nodes | .children => do listValue (← Run.read fun s => (s.node n).nodes)
  | .attr => Run.read fun s => (s.node n).attr
  | .hint => Run.read fun s => (s.node n).hint
  | .link => do
    if (← Run.read fun s => s.parentValue n) = .null then return .null
    Run.allocate (.foreign "ReferenceType" .null [])
  | .parent => Run.read fun s => s.parentValue n
  | .index => readIndex n
  | .siblings => readSiblings n
  | .prev => prev n
  | .next => next n
  | .first => Run.read fun s => s.first n
  | .last => Run.read fun s => s.last n
  | .scope => Run.recover (Run.check fun s => s.scope n) (Run.check fun s => s.extra n "scope")
  | .detached => Run.read fun s => s.detached n
  | .reserved => do namesSet (← Run.read fun s => (s.node n).cls.reserved)
  | .marker => pure (.bool true)
  | .fields => do namesTuple (← Run.read fun s => (s.node n).cls.ownFields)
  | .cls => Run.read fun s => .cls (s.node n).cls.name
  | .watchers | .remark => pure .null
  | .operation =>
    if name ∈ Member.classOperations then classOperation name else operationOf (.node n) name
  | .classOnly => Run.check fun s => s.extra n name

/-- Reads an attribute of a node. -/
def readNode (n : NodeId) (name : String) : Run Value :=
  match Member.ofName? name with
  | some m => readMember n name m
  | none => Run.check fun s => s.extra n name

/-! ## Classes of nodes -/

/-- Reads an attribute of a class of nodes. -/
def readClass (cls : NodeClass) (name : String) : Run Value :=
  match Member.ofName? name with
  | some .detached => pure (.int cls.detached)
  | some .reserved => namesSet cls.reserved
  | some .marker => pure (.bool true)
  | some .fields => namesTuple cls.ownFields
  | some .operation => classOperation name
  | some .cls => pure (.cls "type")
  | none | some .classOnly => throw (.missingOnClass cls.name name)
  | _ => Run.allocate (.foreign (Member.fieldKind name) .null [])

/-! ## Other values -/

/-- A place in a text as a value. -/
def locationValue (line column : Value) : Run Value := Run.allocate (.location line column)

/-- Reads an attribute of an object, if it has one of that name. -/
def readObject? (self : Value) (name : String) (o : Object) : Option (Run Value) :=
  match o, name with
  | .location line _, "line" => some (pure line)
  | .location _ column, "column" => some (pure column)
  | .position start _ _, "start" => some (pure start)
  | .position _ finish _, "end" => some (pure finish)
  | .position _ _ source, "source" => some (pure source)
  | .matcher kind _, "kind" => some (pure (.kind kind))
  | .matcher _ target, "target" => some (pure target)
  | .tracker source _ _, "source" => some (pure source)
  | .tracker _ line _, "line" => some (pure line)
  | .tracker _ _ column, "column" => some (pure column)
  | .tracker _ line column, "location" => some (locationValue line column)
  | .foreign _ marker _, "__astnode__" => some (pure marker)
  | o, "__slots__" => namesTuple <$> fixedFields? o
  | o, name => if name ∈ ownOperations o then some (operationOf self name) else none

/-- Reads an attribute of any value. What was set on an object comes before what its class has. -/
def readAttribute (v : Value) (name : String) : Run Value := do
  let s ← get
  match v, s.freeField? v name with
  | .node n, _ => readNode n name
  | _, some w => return w
  | .cls cls, none =>
    match s.nodeClass? cls with
    | some cls => readClass cls name
    | none => throw (s.missing v name)
  | v, none =>
    if name = "__class__" then return .cls (s.kindName v)
    match (s.object? v).bind (readObject? v name) with
    | some run => run
    | none => throw (s.missing v name)

end SyntaxTree.Store
