import SyntaxTree.Entries

/-!
# `Store.Basic` — nodes, objects and the store that holds them

A store holds all nodes and all objects that were ever made; an identity is a place in one of the two
arrays. Every operation of the library is a function on stores. Nothing is taken away: what no name
leads to any more stays in its place, and only the parent links to it are cut (`Store.collect`).

A node owns its children through `nodes`, and knows its parent through a link that owns nothing. Where
it stands among its siblings is not stored; `hint` remembers a position that may or may not be right.
-/

namespace SyntaxTree

/-! ## Classes of nodes -/

/-- The names of the computed properties. -/
def computedNames : List String := ["siblings", "index", "prev", "next", "first", "last", "scope"]

/-- A class of nodes. -/
structure NodeClass where
  name : String
  /-- The position that stands for "not among the siblings". -/
  detached : Int
  /-- The names that no attribute gets when a node is built or attributes are merged. -/
  reserved : List String
  /-- The names of the fields that the class adds to those of the class it extends. -/
  ownFields : List String
deriving DecidableEq, Repr

/-- The class that all others extend. -/
def NodeClass.node : NodeClass :=
  ⟨"Node", -1, computedNames, ["type", "value", "nodes", "attr", "_parent", "_index", "__weakref__"]⟩

instance : Inhabited NodeClass := ⟨.node⟩

/-- A class that extends the class of nodes and adds no fields to it. -/
def NodeClass.extended (name : String) (detached : Int) (reserved : List String) : NodeClass :=
  ⟨name, detached, reserved, []⟩

/-! ## Nodes -/

/-- What a node is made of. -/
structure NodeRecord where
  cls : NodeClass
  type : Value
  value : Value
  /-- The children; `none` until there is a first one. -/
  nodes : Option (List Value)
  /-- The map of the extra attributes. -/
  attr : Value
  /-- The parent: a node, or an object that passes for one. -/
  parent : Option Value
  /-- Where the node was last known to stand among its siblings. -/
  hint : Value
deriving DecidableEq

/-- A new node without a parent, children, type and value. -/
def NodeRecord.blank (cls : NodeClass) (attr : Value) : NodeRecord :=
  ⟨cls, .null, .null, none, attr, none, .int cls.detached⟩

instance : Inhabited NodeRecord := ⟨.blank .node .null⟩

/-! ## Objects -/

/-- The shapes of a collection of values. -/
inductive Shape
  | list
  | tuple
  | set
  | frozenSet
deriving DecidableEq, Repr, Inhabited

/-- Something that has an identity and is not a node. -/
inductive Object
  | collection (shape : Shape) (items : List Value)
  | map (entries : Entries Value)
  | location (line column : Value)
  | position (start finish source : Value)
  /-- A compiled matcher, or what was put together to look like one. -/
  | matcher (kind : MatcherKind) (target : Value)
  | tracker (source line column : Value)
  /-- Stamps nodes with the span from `start` to where the tracker stands. Fields can be set on it. -/
  | wrapper (tracker : ObjectId) (start : Value) (fields : Entries Value)
  /-- An operation of a node, a tracker or a matcher, taken as a value. -/
  | method (owner : Value) (name : String)
  /-- An object of a class from elsewhere, with the marker of the class and the fields of the object. -/
  | foreign (cls : String) (marker : Value) (fields : Entries Value)
  | plain

instance : Inhabited Object := ⟨.plain⟩

/-! ## Stores -/

/-- What is written to the debug log; nodes and names stand in it as they were shown at that time. -/
inductive DebugRecord
  | cacheMiss (node : String)
  | notChild (child parent : String)
  | droppedField (name : String)
  | droppedAttribute (name : String)
deriving DecidableEq, Repr

namespace DebugRecord

/-- The text of a record. -/
def message : DebugRecord → String
  | .cacheMiss node => "Index cache miss for " ++ node ++ ", rescanning siblings"
  | .notChild child parent => "remove(): " ++ child ++ " is not a child of " ++ parent
  | .droppedField name => "Dropping computed property " ++ name ++ " from node fields"
  | .droppedAttribute name => "Dropping computed property " ++ name ++ " from attributes"

end DebugRecord

/-- All nodes and objects, and the debug log. -/
structure Store where
  nodes : Array NodeRecord
  objects : Array Object
  log : Array DebugRecord
  /-- Whether reading an index may trust the hint; if not, it looks through the siblings every time. -/
  trustsHints : Bool
  /-- Whether somebody reads the debug log: only then is a record that cannot be shown a fault. -/
  logIsRead : Bool

namespace Store

/-- The store in which nothing has been made. -/
def empty : Store := ⟨#[], #[], #[], true, false⟩

instance : Inhabited Store := ⟨.empty⟩

/-- The record of a node. -/
def node (s : Store) (n : NodeId) : NodeRecord := s.nodes.getD n default

/-- An object. -/
def object (s : Store) (o : ObjectId) : Object := s.objects.getD o .plain

/-- The children of a node, none at all if it has no list. -/
def children (s : Store) (n : NodeId) : List Value := (s.node n).nodes.getD []

/-- Changes the record of a node. -/
def updateNode (s : Store) (n : NodeId) (f : NodeRecord → NodeRecord) : Store :=
  { s with nodes := s.nodes.modify n f }

/-- Changes an object. -/
def updateObject (s : Store) (o : ObjectId) (f : Object → Object) : Store :=
  { s with objects := s.objects.modify o f }

/-- The store with one more node. -/
def addNode (s : Store) (r : NodeRecord) : Store := { s with nodes := s.nodes.push r }

/-- The store with one more object. -/
def addObject (s : Store) (o : Object) : Store := { s with objects := s.objects.push o }

/-- The store with one more debug record. -/
def note (s : Store) (r : DebugRecord) : Store := { s with log := s.log.push r }

/-- What has not been made reads as a blank node. -/
theorem node_of_size_le (s : Store) {n : NodeId} (h : s.nodes.size ≤ n) : s.node n = default := by
  rw [node, Array.getD_eq_getD_getElem?, Array.getElem?_eq_none h, Option.getD_none]

/-- What has not been made reads as an object without anything in it. -/
theorem object_of_size_le (s : Store) {o : ObjectId} (h : s.objects.size ≤ o) : s.object o = .plain := by
  rw [object, Array.getD_eq_getD_getElem?, Array.getElem?_eq_none h, Option.getD_none]

/-- An object with something in it has been made. -/
theorem lt_size_of_object {s : Store} {o : ObjectId} (h : s.object o ≠ .plain) : o < s.objects.size :=
  Nat.lt_of_not_le fun hle => h (s.object_of_size_le hle)

@[simp] theorem node_updateNode_self (s : Store) {n : NodeId} (f : NodeRecord → NodeRecord)
    (h : n < s.nodes.size) : (s.updateNode n f).node n = f (s.node n) := by
  simp [node, updateNode, Array.getD_eq_getD_getElem?, Array.getElem_modify, h]

theorem node_updateNode_of_ne (s : Store) {n m : NodeId} (f : NodeRecord → NodeRecord) (h : m ≠ n) :
    (s.updateNode n f).node m = s.node m := by
  simp [node, updateNode, Array.getD_eq_getD_getElem?, Array.getElem?_modify, Ne.symm h]

/-- A change is one of a node that has been made. -/
theorem node_updateNode (s : Store) (n m : NodeId) (f : NodeRecord → NodeRecord) :
    (s.updateNode n f).node m = if m = n ∧ m < s.nodes.size then f (s.node m) else s.node m := by
  by_cases hm : m = n
  · subst hm
    by_cases hlt : m < s.nodes.size
    · rw [if_pos ⟨rfl, hlt⟩, node_updateNode_self s f hlt]
    · have hle : (s.updateNode m f).nodes.size ≤ m := by
        rw [updateNode, Array.size_modify]
        exact Nat.le_of_not_lt hlt
      rw [if_neg fun h => hlt h.2, node_of_size_le _ hle, node_of_size_le s (Nat.le_of_not_lt hlt)]
  · rw [if_neg fun h => hm h.1, node_updateNode_of_ne s f hm]

@[simp] theorem object_updateNode (s : Store) (n : NodeId) (f : NodeRecord → NodeRecord) (o : ObjectId) :
    (s.updateNode n f).object o = s.object o := rfl

@[simp] theorem size_updateNode (s : Store) (n : NodeId) (f : NodeRecord → NodeRecord) :
    (s.updateNode n f).nodes.size = s.nodes.size := by
  simp [updateNode]

@[simp] theorem object_updateObject_self (s : Store) {o : ObjectId} (f : Object → Object)
    (h : o < s.objects.size) : (s.updateObject o f).object o = f (s.object o) := by
  simp [object, updateObject, Array.getD_eq_getD_getElem?, Array.getElem_modify, h]

theorem object_updateObject_of_ne (s : Store) {o p : ObjectId} (f : Object → Object) (h : p ≠ o) :
    (s.updateObject o f).object p = s.object p := by
  simp [object, updateObject, Array.getD_eq_getD_getElem?, Array.getElem?_modify, Ne.symm h]

theorem object_updateObject (s : Store) (o p : ObjectId) (f : Object → Object) :
    (s.updateObject o f).object p = if p = o ∧ p < s.objects.size then f (s.object p) else s.object p := by
  by_cases hp : p = o
  · subst hp
    by_cases hlt : p < s.objects.size
    · rw [if_pos ⟨rfl, hlt⟩, object_updateObject_self s f hlt]
    · have hle : (s.updateObject p f).objects.size ≤ p := by
        rw [updateObject, Array.size_modify]
        exact Nat.le_of_not_lt hlt
      rw [if_neg fun h => hlt h.2, object_of_size_le _ hle, object_of_size_le s (Nat.le_of_not_lt hlt)]
  · rw [if_neg fun h => hp h.1, object_updateObject_of_ne s f hp]

@[simp] theorem node_updateObject (s : Store) (o : ObjectId) (f : Object → Object) (n : NodeId) :
    (s.updateObject o f).node n = s.node n := rfl

@[simp] theorem node_addNode_self (s : Store) (r : NodeRecord) :
    (s.addNode r).node s.nodes.size = r := by
  simp [node, addNode, Array.getD_eq_getD_getElem?]

theorem node_addNode_of_lt (s : Store) (r : NodeRecord) {n : NodeId} (h : n < s.nodes.size) :
    (s.addNode r).node n = s.node n := by
  have hne : n ≠ s.nodes.size := Nat.ne_of_lt h
  simp [node, addNode, Array.getD_eq_getD_getElem?, Array.getElem?_push, hne]

@[simp] theorem size_addNode (s : Store) (r : NodeRecord) :
    (s.addNode r).nodes.size = s.nodes.size + 1 := by
  simp [addNode]

@[simp] theorem node_addObject (s : Store) (o : Object) (n : NodeId) :
    (s.addObject o).node n = s.node n := rfl

@[simp] theorem size_addObject (s : Store) (o : Object) :
    (s.addObject o).objects.size = s.objects.size + 1 := by
  simp [addObject]

@[simp] theorem object_addObject_self (s : Store) (o : Object) :
    (s.addObject o).object s.objects.size = o := by
  simp [object, addObject, Array.getD_eq_getD_getElem?]

theorem object_addObject_of_lt (s : Store) (o : Object) {i : ObjectId} (h : i < s.objects.size) :
    (s.addObject o).object i = s.object i := by
  have hne : i ≠ s.objects.size := Nat.ne_of_lt h
  simp [object, addObject, Array.getD_eq_getD_getElem?, Array.getElem?_push, hne]

@[simp] theorem node_note (s : Store) (r : DebugRecord) (n : NodeId) :
    (s.note r).node n = s.node n := rfl

end Store

end SyntaxTree
