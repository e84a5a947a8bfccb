import SyntaxTree.Node.Clone
import SyntaxTree.Node.Emptiness
import SyntaxTree.Node.Outline
import SyntaxTree.Node.Search
import SyntaxTree.Tracker

/-!
# `Node.Call` — values that can be called

A wrapper stamps a node, a matcher tests a type, a class of nodes makes a node, and the class of trackers
makes a tracker. An operation that was taken as a value is carried out on the node, tracker or matcher it
was taken from; taken from the class, it gets its owner as the first argument. Every other value refuses
to be called.
-/

namespace SyntaxTree.Store

/-- Answers null. -/
def unit (run : Run Unit) : Run Value := do
  run
  return .null

/-- Answers a count. -/
def counted (run : Run Nat) : Run Value := (fun k => .int (k : Nat)) <$> run

/-- Answers a truth value that is read from the store. -/
def truth (f : Store → Except Fault Bool) : Run Value := .bool <$> Run.check f

/-! ## Operations of nodes -/

/-- How a predicate is asked about a node, or the position of a node is called with it. -/
abbrev Asking := Value → NodeId → Run Bool

/-- Whether all of some values are empty, asked one by one. -/
def allEmptyBy (search : NodeId → Run Bool) : List Value → Run Bool
  | [] => return true
  | v :: vs => do
    let c ← Run.check fun s => s.actor "is_empty" v
    if ← search c then allEmptyBy search vs else return false

/-- Searches the tree below a node for a value or a node that fails a test, which may itself change the
store, down to a depth. -/
def emptyByWithin (test : NodeId → Run Bool) : Nat → NodeId → Run Bool
  | 0, _ => throw .endless
  | fuel + 1, n => do
    if !(← test n) then return false
    let s ← get
    if s.carriesValue n then return false
    allEmptyBy (emptyByWithin test fuel) (s.children n)

/-- Whether no node of a tree carries a value and every node passes the test of a predicate. -/
def isEmptyBy (ask : Asking) (n : NodeId) (predicate : Value) : Run Bool := do
  let s ← get
  if predicate = .null then Run.check fun s => s.isEmpty n
  else emptyByWithin (ask predicate) (s.nodes.size + 1) n

/-- Reads an extra attribute by a name that is given as a value. -/
def extraOf (s : Store) (n : NodeId) : Value → Except Fault Value
  | .text name => s.extra n name
  | v => .error (s.refusal v "startswith")

/-- Fills a node with the fields of a map that is given as a value. -/
def mergeMap (n : NodeId) (fields : Value) : Run Unit := do
  let s ← get
  match s.entries? fields with
  | some es => mergeFields n es
  | none => throw (s.refusal fields "items")

/-- Calls the position of a node with it, if there is one. -/
def askPosition (ask : Asking) (n : NodeId) (position : Value) : Run Unit := do
  if position ≠ .null then
    let _ ← ask position n

/-- Assigns an attribute by a name that is given as a value. -/
def assignNamed (n : NodeId) (name v : Value) : Run Unit := do
  match name with
  | .text name => assignNode n name v
  | _ => assignExtra n (.ofValue name) v

/-- Carries out an operation of a node. -/
def operate (ask : Asking) (n : NodeId) (operation : String) (given : Entries Value) : Run Value :=
  match operation with
  | "push" => counted (push n (given.argument "node"))
  | "unshift" => counted (unshift n (given.argument "node"))
  | "remove" => remove n (given.argument "node")
  | "pop" => pop n
  | "shift" => shift n
  | "clone" => .node <$> clone n
  | "to_dict" => toMap n
  | "find" => Run.check fun s => s.find n (given.argument "matcher")
  | "is_type" => truth fun s => s.isType n (given.argument "matcher")
  | "has_type" => truth fun s => s.hasType n (given.argument "matcher")
  | "is_inside" => truth fun s => s.isInside n (given.argument "matcher")
  | "is_empty" => .bool <$> isEmptyBy ask n (given.argument "predicate")
  | "get_attr" => Run.check fun s =>
    s.getAttributes n (given.argument "attr") (given.argument "default")
  | "set_attr" =>
    let named := given.filter fun e => e.1 != .text "_attr"
    unit (setAttributes n (given.argument "_attr") named)
  | "_check_node" => do
    let action ← Run.check fun s => displayPlain s.display (given.argument "action")
    unit (Run.check fun s => s.requireNode action (given.argument "value"))
  | "_merge_fields" => unit (mergeMap n (given.argument "fields"))
  | "__init__" => unit do
    reconstruct n (.ofArguments given)
    askPosition ask n (given.argument "position")
  | "__repr__" => .text <$> Run.check fun s => s.display (.node n)
  | "__getattr__" => Run.check fun s => s.extraOf n (given.argument "name")
  | "__setattr__" => unit (assignNamed n (given.argument "name") (given.argument "value"))
  | _ => return .null

/-! ## Calls -/

/-- Carries out an operation that was taken from a class of nodes. -/
def callUnbound (ask : Asking) (cls name : String) (args : List Value) (named : Entries Value) :
    Run Value := do
  let some sig := Signature.ofNode? name | throw (.missingOnClass cls name)
  let given ← Run.check fun _ => sig.ofClass.bind args named
  match given.find? (.text "self") with
  | none => truth fun s => .ok (s.isNode (given.argument "value"))
  | some (.node n) => operate ask n name (given.filter fun e => e.1 != .text "self")
  | some v => Run.check fun s => .error (s.missing v name)

/-- Carries out an operation that was taken from a value. -/
def callOperation (ask : Asking) (owner : Value) (name : String) (args : List Value)
    (named : Entries Value) : Run Value := do
  let s ← get
  let bound := fun sig : Option Signature => Run.check fun s => match sig with
    | some sig => sig.bind args named
    | none => .error (s.missing owner name)
  match owner, s.object? owner with
  | .cls cls, _ => callUnbound ask cls name args named
  | .node n, _ =>
    let given ← bound (Signature.ofNode? name)
    operate ask n name given
  | .object t, some (.tracker ..) =>
    let given ← bound (Signature.ofTracker? name)
    if name = "advance" then unit (advance t (given.argument "text")) else capture t
  | owner, some (.matcher ..) =>
    let given ← bound (Signature.ofMatcher? name)
    truth fun s => s.objectAccepts owner (given.argument "node_type")
  | owner, _ => throw (s.missing owner name)

/-- Calls a value with arguments, given how predicates are asked. -/
def callAsking (ask : Asking) (f : Value) (args : List Value) (named : Entries Value) : Run Value := do
  let s ← get
  match f, s.object? f with
  | _, some (.wrapper t start _) =>
    let given ← Run.check fun _ => Signature.wrapping.bind args named
    stamp t start (given.argument "node")
  | f, some (.matcher ..) =>
    let given ← Run.check fun _ => Signature.asking.bind args named
    truth fun s => s.objectAccepts f (given.argument "node_type")
  | _, some (.method owner name) => callOperation ask owner name args named
  | .cls name, _ =>
    match s.nodeClass? name with
    | some cls =>
      let given ← Run.check fun _ => Signature.making.bind args named
      let n ← createUnplaced cls (.ofArguments given)
      askPosition ask n (given.argument "position")
      return .node n
    | none =>
      if name ≠ "PositionTracker" then throw (.takesNoArguments name)
      let given ← Run.check fun _ => Signature.makingTracker.bind args named
      newTracker (given.argument "source")
  | f, _ => throw (.notCallable (s.qualifiedKindName f))

/-- Refuses a node as a predicate. -/
def askNode : Asking := fun predicate _ =>
  Run.check fun s => .error (.notCallable (s.qualifiedKindName predicate))

/-- Asks a predicate by calling it with the node. A predicate that searches a tree itself takes that
node for its own predicate, and a class that is called with the node is given no position, so neither
needs another way of asking. -/
def askByCall : Asking := fun predicate n => do
  let answer ← callAsking askNode predicate [.node n] []
  Run.read fun s => s.truthy answer

/-- Calls a value with arguments. -/
def call (f : Value) (args : List Value) (named : Entries Value) : Run Value :=
  callAsking askByCall f args named

/-- Asks a value for an operation with arguments. -/
def request (target : Value) (operation : String) (args : List Value) (named : Entries Value) :
    Run Value := do
  let f ← readAttribute target operation
  call f args named

/-! ## Making nodes -/

/-- Makes a node: it is filled, and then its position is called with it, if one is given. A wrapper
stamps the node with the span of its token, and whatever else can be called may do as it likes. -/
def create (cls : NodeClass) (given : Construction) : Run NodeId := do
  let n ← createUnplaced cls given
  if given.position ≠ .null then
    let _ ← call given.position [.node n] []
  return n

end SyntaxTree.Store
