import SyntaxTree.Node.Member
import SyntaxTree.Store.Basic

/-!
# `Store.Kind` — what a value is

The class of a value by name, whether it passes for a node, and whether it counts as true. An object
from elsewhere passes for a node if it carries the marker of nodes, on its class or among its own
fields; a wrapper can be given the marker too.
-/

namespace SyntaxTree

/-- The name of the class of an object. -/
def Object.kindName : Object → String
  | .collection .list _ => "list"
  | .collection .tuple _ => "tuple"
  | .collection .set _ => "set"
  | .collection .frozenSet _ => "frozenset"
  | .map _ => "dict"
  | .location .. => "Location"
  | .position .. => "Position"
  | .matcher .. => "TypeMatcher"
  | .tracker .. => "PositionTracker"
  | .wrapper .. => "function"
  | .method (.cls _) name => Member.classOperationKind name
  | .method _ name => Member.operationKind name
  | .foreign cls _ _ => cls
  | .plain => "object"

/-- The fields of an object that can be set at will, if it has such. -/
def Object.freeFields? : Object → Option (Entries Value)
  | .foreign _ _ fields => some fields
  | .wrapper _ _ fields => some fields
  | _ => none

/-- Changes the fields of an object that can be set at will. -/
def Object.mapFreeFields (f : Entries Value → Entries Value) : Object → Object
  | .foreign cls marker fields => .foreign cls marker (f fields)
  | .wrapper t start fields => .wrapper t start (f fields)
  | other => other

namespace Store

/-- The object behind a value. -/
def object? (s : Store) : Value → Option Object
  | .object o => some (s.object o)
  | _ => none

/-- The tuple without items, once it has been made. -/
def emptyTuple? (s : Store) : Option ObjectId :=
  s.objects.findIdx? fun o => o matches .collection .tuple []

/-- An operation that belongs to the class of nodes itself, once it has been taken as a value. -/
def classOperation? (s : Store) (name : String) : Option ObjectId :=
  s.objects.findIdx? fun
    | .method (.cls _) taken => taken == name
    | _ => false

/-- The entries of a map. -/
def entries? (s : Store) (v : Value) : Option (Entries Value) :=
  match s.object? v with
  | some (.map es) => some es
  | _ => none

/-- The extra attributes of a node. -/
def attributes (s : Store) (n : NodeId) : Entries Value := (s.entries? (s.node n).attr).getD []

/-- The name of the class of a value, as messages about arguments have it. -/
def kindName (s : Store) : Value → String
  | .null => "NoneType"
  | .bool _ => "bool"
  | .int _ => "int"
  | .float _ => "float"
  | .text _ => "str"
  | .bytes _ => "bytes"
  | .pattern _ => "Pattern"
  | .kind _ => "MatcherKind"
  | .cls _ => "type"
  | .node n => (s.node n).cls.name
  | .object o => (s.object o).kindName

/-- The name of the class of a value, as messages about unsupported operations have it. -/
def qualifiedKindName (s : Store) (v : Value) : String :=
  match v with
  | .pattern _ => "re.Pattern"
  | v => s.kindName v

/-- The class of nodes of a name: the common one, or one that some node is of. -/
def nodeClass? (s : Store) (name : String) : Option NodeClass :=
  if name = NodeClass.node.name then some .node
  else (s.nodes.find? fun r => r.cls.name == name).map NodeRecord.cls

/-- The marker that tells whether an object passes for a node. -/
def marker? (s : Store) (o : ObjectId) : Option Value :=
  match s.object o with
  | .foreign _ marker fields => some ((fields.find? (.text "__astnode__")).getD marker)
  | .wrapper _ _ fields => fields.find? (.text "__astnode__")
  | _ => none

/-- Whether a value passes for a node: it is one, or it carries the marker of nodes. -/
def isNode (s : Store) : Value → Bool
  | .node _ => true
  | .object o => s.marker? o == some (.bool true)
  | _ => false

/-- Whether a value counts as true: not null, zero, or empty. -/
def truthy (s : Store) : Value → Bool
  | .null => false
  | .bool b => b
  | .int i => i != 0
  | .float x => !x.isZero
  | .text t => t != ""
  | .bytes bs => !bs.isEmpty
  | .object o =>
    match s.object o with
    | .collection _ items => !items.isEmpty
    | .map es => !es.isEmpty
    | _ => true
  | _ => true

end Store

end SyntaxTree
