import SyntaxTree.Entries
import SyntaxTree.Fault

/-!
# `Node.Signature` — what operations may be given

An operation takes its arguments by position or by name. Arguments given by name are looked at first:
each must have a name that the operation knows and that nothing was given for before. Then there must
not be more arguments by position than the operation has, and none that it requires may be missing.
-/

namespace SyntaxTree

/-- What an operation may be given. -/
structure Signature where
  title : String
  /-- The value that the operation is asked of, where that counts as the first argument. -/
  owner : Option String
  required : List String
  optional : List String
  /-- What can be given by name alone. -/
  byName : List String
  /-- Whether anything else can be given by name as well. -/
  takesAny : Bool

namespace Signature

/-- An operation of an object. -/
def operation (title : String) (required optional : List String) : Signature :=
  ⟨title, some "self", required, optional, [], false⟩

/-- A function that belongs to no object. -/
def function (title : String) (required : List String) : Signature :=
  ⟨title, none, required, [], [], false⟩

/-- The operation taken from its class, which is given its owner like any other argument. -/
def ofClass (sig : Signature) : Signature :=
  { sig with owner := none, required := sig.owner.toList ++ sig.required }

/-- What can be given by position. -/
def places (sig : Signature) : List String := sig.required ++ sig.optional

/-- Adds what is given by name to what is given by position. -/
def addNamed (sig : Signature) (given : Entries Value) : Entries Value → Except Fault (Entries Value)
  | [] => .ok given
  | (.text name, v) :: rest =>
    let known := name ∈ sig.places ∨ name ∈ sig.byName
    if sig.owner = some name ∨ (known ∧ (given.find? (.text name)).isSome) then
      .error (.repeatedArgument sig.title name)
    else if known ∨ sig.takesAny then addNamed sig (given.put (.text name) v) rest
    else .error (.unexpectedArgument sig.title name)
  | _ :: rest => addNamed sig given rest

/-- The arguments of an operation by their names. -/
def bind (sig : Signature) (args : List Value) (named : Entries Value) :
    Except Fault (Entries Value) := do
  let placed := Entries.ofPairs ((sig.places.map Key.text).zip args)
  let given ← sig.addNamed placed named
  let implied := sig.owner.toList.length
  if sig.places.length < args.length then
    let byName := (sig.byName.filter fun name => (given.find? (.text name)).isSome).length
    .error (.tooManyArguments sig.title (sig.required.length + implied) (sig.places.length + implied)
      (args.length + implied) byName)
  else
    match sig.required.filter fun name => (given.find? (.text name)).isNone with
    | [] => .ok given
    | missing => .error (.missingArguments sig.title missing)

/-! ## The operations of nodes, trackers and matchers -/

/-- Making a node. -/
def making : Signature :=
  ⟨"Node.__init__", some "self", [], ["value", "type", "parent"], ["position"], false⟩

/-- Making a tracker. -/
def makingTracker : Signature := operation "PositionTracker.__init__" [] ["source"]

/-- Applying a wrapper. -/
def wrapping : Signature := function "PositionTracker.position.<locals>.wrap" ["node"]

/-- Asking a matcher. -/
def asking : Signature := operation "TypeMatcher.__call__" ["node_type"] []

/-- The signature of an operation of nodes. -/
def ofNode? (name : String) : Option Signature :=
  let title := "Node." ++ name
  match name with
  | "push" | "unshift" | "remove" => some (operation title ["node"] [])
  | "pop" | "shift" | "clone" | "to_dict" | "__repr__" => some (operation title [] [])
  | "find" | "is_type" | "has_type" | "is_inside" => some (operation title ["matcher"] [])
  | "is_empty" => some (operation title [] ["predicate"])
  | "get_attr" => some (operation title [] ["attr", "default"])
  | "set_attr" => some { operation title [] ["_attr"] with takesAny := true }
  | "is_node" => some (function title ["value"])
  | "_check_node" => some (operation title ["value", "action"] [])
  | "_merge_fields" => some (operation title ["fields"] [])
  | "__init__" => some making
  | "__getattr__" => some (operation title ["name"] [])
  | "__setattr__" => some (operation title ["name", "value"] [])
  | _ => none

/-- The signature of an operation of trackers. -/
def ofTracker? (name : String) : Option Signature :=
  match name with
  | "advance" => some (operation "PositionTracker.advance" ["text"] [])
  | "position" => some (operation "PositionTracker.position" [] [])
  | _ => none

/-- The signature of an operation of matchers. -/
def ofMatcher? (name : String) : Option Signature :=
  match name with
  | "matches" => some (operation "TypeMatcher.matches" ["node_type"] [])
  | _ => none

end Signature

/-- An argument by its name; what is not given is null. -/
def Entries.argument (given : Entries Value) (name : String) : Value :=
  (given.find? (.text name)).getD .null

end SyntaxTree
