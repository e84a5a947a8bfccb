import SyntaxTree.Brace.Build
import SyntaxTree.Store.Collect

/-!
# `Action` — the operations of the library as data

An action is one call with all its arguments. `perform` carries it out and answers with a value, so that
a history of a store is a list of actions. The target of an action may be any value: what does not have an
operation itself is asked for something of its name, and that is called.
-/

namespace SyntaxTree

/-- One call. -/
inductive Action
  | create (cls : NodeClass) (given : Construction)
  | push (target child : Value)
  | unshift (target child : Value)
  | pop (target : Value)
  | shift (target : Value)
  | remove (target child : Value)
  | clone (target : Value)
  | toMap (target : Value)
  | read (target : Value) (name : String)
  /-- Reads from a clone that is gone afterwards. -/
  | readClone (target : Value) (name : String)
  | assign (target : Value) (name : String) (value : Value)
  | getAttributes (target name fallback : Value)
  | setAttributes (target mapping : Value) (named : Entries Value)
  | find (target matcher : Value)
  | isType (target matcher : Value)
  | hasType (target matcher : Value)
  | isInside (target matcher : Value)
  | isEmpty (target : Value)
  | isNode (value : Value)
  | display (value : Value)
  | newTracker (source : Value)
  | advance (target chunk : Value)
  | capture (target : Value)
  | call (target argument : Value)
  /-- Asks a value for an operation by its name. -/
  | request (target : Value) (operation : String) (args : List Value) (named : Entries Value)
  | compile (matcher : Value)
  | accepts (target type : Value)
  | matchesType (matcher type : Value)
  | same (a b : Value)
  | equal (a b : Value)
  | appendItem (target item : Value)
  | putEntry (target key item : Value)
  | buildBrace (pattern : String)

namespace Store

/-- Carries out an operation of a node. Another value is asked for the operation by its name. -/
def onNode (target : Value) (operation : String) (args : List Value) (run : NodeId → Run Value) :
    Run Value :=
  match target with
  | .node n => run n
  | v => request v operation args []

/-- Carries out an operation of an object of one kind. Another value is asked for the operation by its
name. -/
def onObject (target : Value) (operation : String) (args : List Value) (fits : Object → Bool)
    (run : ObjectId → Run Value) : Run Value := do
  let s ← get
  match target with
  | .object o => if fits (s.object o) then run o else request target operation args []
  | v => request v operation args []

/-- Appends an item to a list. -/
def appendItem (target item : Value) : Run Unit := do
  let s ← get
  match target, s.object? target with
  | .object o, some (.collection .list items) =>
    set (s.updateObject o fun _ => .collection .list (items ++ [item]))
  | _, _ => throw (s.refusal target "append")

/-- Puts a value under a key of a map, or at a position of a list. -/
def putEntry (target key item : Value) : Run Unit := do
  Run.check fun s => if (s.entries? target).isSome then s.requireHashable key else .ok ()
  let s ← Run.check fun s => s.putItem target (.ofValue key) item
  set s

end Store

namespace Action

open Store

/-- Carries an action out. -/
def perform : Action → Run Value
  | create cls given => .node <$> Store.create cls given
  | push target child => onNode target "push" [child] fun n => counted (Store.push n child)
  | unshift target child => onNode target "unshift" [child] fun n => counted (Store.unshift n child)
  | pop target => onNode target "pop" [] Store.pop
  | shift target => onNode target "shift" [] Store.shift
  | remove target child => onNode target "remove" [child] fun n => Store.remove n child
  | clone target => onNode target "clone" [] fun n => .node <$> Store.clone n
  | toMap target => onNode target "to_dict" [] Store.toMap
  | read target name => readAttribute target name
  | readClone target name => do
    let c ← onNode target "clone" [] fun n => .node <$> Store.clone n
    readAttribute c name
  | assign target name value => unit (assignAttribute target name value)
  | getAttributes target name fallback => onNode target "get_attr" [name, fallback] fun n =>
    Run.check fun s => s.getAttributes n name fallback
  | setAttributes target mapping named => onNode target "set_attr" [mapping] fun n =>
    unit (Store.setAttributes n mapping named)
  | find target matcher => onNode target "find" [matcher] fun n =>
    Run.check fun s => s.find n matcher
  | isType target matcher => onNode target "is_type" [matcher] fun n =>
    truth fun s => s.isType n matcher
  | hasType target matcher => onNode target "has_type" [matcher] fun n =>
    truth fun s => s.hasType n matcher
  | isInside target matcher => onNode target "is_inside" [matcher] fun n =>
    truth fun s => s.isInside n matcher
  | isEmpty target => onNode target "is_empty" [] fun n => truth fun s => s.isEmpty n
  | isNode value => truth fun s => .ok (s.isNode value)
  | display value => .text <$> Run.check fun s => s.display value
  | newTracker source => Store.newTracker source
  | advance target chunk =>
    onObject target "advance" [chunk] (· matches .tracker ..) fun t => unit (Store.advance t chunk)
  | capture target => onObject target "position" [] (· matches .tracker ..) Store.capture
  | call target argument => Store.call target [argument] []
  | request target operation args named => Store.request target operation args named
  | compile matcher => compileMatcher matcher
  | accepts target type =>
    onObject target "matches" [type] (· matches .matcher ..) fun m =>
      truth fun s => s.objectAccepts (.object m) type
  | matchesType matcher type => truth fun s => s.matchesType matcher type
  | same a b => pure (.bool (a = b))
  | equal a b => truth fun s => s.equal a b
  | appendItem target item => unit (Store.appendItem target item)
  | putEntry target key item => unit (Store.putEntry target key item)
  | buildBrace pattern => .node <$> Brace.build pattern

/-- Carries actions out in order; a fault ends none but its own action. -/
def performAll : List Action → Store → List (Except Fault Value) × Store
  | [], s => ([], s)
  | a :: rest, s =>
    let result := a.perform s
    let (answers, last) := performAll rest (Run.after result)
    (Run.outcome result :: answers, last)

end Action

end SyntaxTree
