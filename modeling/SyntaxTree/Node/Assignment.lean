import SyntaxTree.Node.Attribute

/-!
# `Node.Assignment` — setting attributes by name

Stored fields take whatever is assigned, and the parent takes what passes for a node; computed
properties, operations and constants refuse. Every other name becomes an extra attribute. Of the other
objects the immutable ones refuse every assignment.
-/

namespace SyntaxTree.Store

/-- Refuses what does not pass for a node. -/
def requireNode (s : Store) (action : String) (v : Value) : Except Fault Unit :=
  if s.isNode v then .ok () else .error (.expectedNode action (s.kindName v))

/-- Sets the parent link of a node. -/
def setParent (s : Store) (n : NodeId) (parent : Option Value) : Store :=
  s.updateNode n fun r => { r with parent }

/-- Sets the children of a node. -/
def setNodes (s : Store) (n : NodeId) (nodes : Option (List Value)) : Store :=
  s.updateNode n fun r => { r with nodes }

@[simp] theorem node_setParent_self (s : Store) {n : NodeId} (parent : Option Value)
    (h : n < s.nodes.size) : (s.setParent n parent).node n = { s.node n with parent } := by
  simp [setParent, h]

theorem node_setParent_of_ne (s : Store) {n m : NodeId} (parent : Option Value) (h : m ≠ n) :
    (s.setParent n parent).node m = s.node m :=
  node_updateNode_of_ne s _ h

@[simp] theorem node_setNodes_self (s : Store) {n : NodeId} (nodes : Option (List Value))
    (h : n < s.nodes.size) : (s.setNodes n nodes).node n = { s.node n with nodes } := by
  simp [setNodes, h]

theorem node_setNodes_of_ne (s : Store) {n m : NodeId} (nodes : Option (List Value)) (h : m ≠ n) :
    (s.setNodes n nodes).node m = s.node m :=
  node_updateNode_of_ne s _ h

/-! ## Nodes -/

/-- Assigns a parent: null for none, otherwise something that passes for a node. -/
def assignParent (n : NodeId) (v : Value) : Run Unit := do
  if v = .null then Run.update fun s => s.setParent n none
  else
    Run.check fun s => s.requireNode "parent" v
    Run.update fun s => s.setParent n (some v)

/-- The children that a value stands for. -/
def childrenOf (s : Store) : Value → Except Fault (Option (List Value))
  | .null => .ok none
  | v => some <$> s.items v

/-- Sets an extra attribute of a node. -/
def assignExtra (n : NodeId) (key : Key) (v : Value) : Run Unit := do
  let s ← Run.check fun s => s.setExtra n key v
  set s

/-- Makes a node one of another class of nodes. -/
def assignClass (n : NodeId) (v : Value) : Run Unit := do
  let s ← get
  match v with
  | .cls name =>
    match s.nodeClass? name with
    | some cls => set (s.updateNode n fun r => { r with cls })
    | none => throw (.otherLayout name (s.node n).cls.name)
  | v => throw (.notAClass (s.qualifiedKindName v))

/-- Assigns what the class of nodes has under a name. Whatever is assigned to the parent link itself
cuts it: a link is made from a parent only. -/
def assignMember (n : NodeId) (name : String) (v : Value) : Member → Run Unit
  | .type => Run.update fun s => s.updateNode n fun r => { r with type := v }
  | .value => Run.update fun s => s.updateNode n fun r => { r with value := v }
  | .nodes => do
    let nodes ← Run.check fun s => s.childrenOf v
    Run.update fun s => s.setNodes n nodes
  | .attr => Run.update fun s => s.updateNode n fun r => { r with attr := v }
  | .hint | .index => Run.update fun s => s.setHint n v
  | .link => Run.update fun s => s.setParent n none
  | .parent => assignParent n v
  | .children => Run.check fun s => .error (.noSetter (s.node n).cls.name name)
  | .cls => assignClass n v
  | .watchers => throw (.notWritable NodeClass.node.name name)
  | .classOnly => Run.check fun s => .error (.missingAttribute (s.node n).cls.name name)
  | m =>
    if m.isComputed then throw (.computedProperty name)
    else Run.check fun s => .error (.readOnlyAttribute (s.node n).cls.name name)

/-- Assigns an attribute of a node. -/
def assignNode (n : NodeId) (name : String) (v : Value) : Run Unit :=
  match Member.ofName? name with
  | some m => assignMember n name v m
  | none => assignExtra n (.text name) v

/-! ## Other values -/

/-- Refuses to set a field of an immutable record. -/
def refuseField (fields : List String) (name : String) : Run Unit :=
  throw (if name ∈ fields then .frozenField name else .unknownFrozenField)

/-- Sets what a tracker holds. -/
def setTracker (s : Store) (t : ObjectId) (source line column : Value) : Store :=
  s.updateObject t fun _ => .tracker source line column

/-- Assigns an attribute of a tracker; its line and column take any value. -/
def assignTracker (t : ObjectId) (source line column : Value) (name : String) (v : Value) : Run Unit :=
  match name with
  | "source" => Run.update fun s => s.setTracker t v line column
  | "line" => Run.update fun s => s.setTracker t source v column
  | "column" => Run.update fun s => s.setTracker t source line v
  | "location" => throw (.noSetter "PositionTracker" name)
  | "advance" | "position" | "__init__" | "__repr__" | "__setattr__" | "__slots__" =>
    throw (.readOnlyAttribute "PositionTracker" name)
  | name =>
    if name ∈ Member.comparisons ∨ name ∈ Member.services then
      throw (.readOnlyAttribute "PositionTracker" name)
    else throw (.missingAttribute "PositionTracker" name)

/-- Assigns an attribute of any value. -/
def assignAttribute (target : Value) (name : String) (v : Value) : Run Unit := do
  match target with
  | .node n => assignNode n name v
  | .object o =>
    let s ← get
    match s.object o with
    | .tracker source line column => assignTracker o source line column name v
    | .foreign .. | .wrapper .. => Run.update fun s => s.setFreeField o name v
    | x =>
      match fixedFields? x with
      | some fields => refuseField fields name
      | none => throw (s.missing target name)
  | .cls _ => return ()
  | target => Run.check fun s => .error (s.missing target name)

end SyntaxTree.Store
