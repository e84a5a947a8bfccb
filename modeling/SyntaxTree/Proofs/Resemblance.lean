import SyntaxTree.Node.Clone
import SyntaxTree.Node.Emptiness
import SyntaxTree.Node.Outline
import SyntaxTree.Node.Relations
import SyntaxTree.Node.Search
import SyntaxTree.Store.Collect

/-!
# `Proofs.Resemblance` — stores that show the same

Two stores resemble each other if their objects are the same and their nodes have the same fields, apart
from hints, and from whether a node without children has an empty list or none at all. Nothing but the
index, what is asked through it and the list of children itself can tell them apart.

There is one equation for each question, in the order in which the questions are built on each other.

A position hint is the one field of a node that may be anything. `Store.unhinted` puts every hint back
to what a new node has, and forgets the debug log and the trust in hints; two stores that become the
same in this way differ in nothing else, and so they resemble each other.
-/

namespace SyntaxTree

/-- The records differ in the hint, and in whether there is no list of children or an empty one. -/
structure NodeRecord.Resembles (r r' : NodeRecord) : Prop where
  cls : r.cls = r'.cls
  type : r.type = r'.type
  value : r.value = r'.value
  attr : r.attr = r'.attr
  parent : r.parent = r'.parent
  children : r.nodes.getD [] = r'.nodes.getD []

namespace NodeRecord.Resembles

variable {r r' r'' : NodeRecord}

theorem refl (r : NodeRecord) : r.Resembles r := ⟨rfl, rfl, rfl, rfl, rfl, rfl⟩

theorem symm (h : r.Resembles r') : r'.Resembles r :=
  ⟨h.cls.symm, h.type.symm, h.value.symm, h.attr.symm, h.parent.symm, h.children.symm⟩

theorem trans (h : r.Resembles r') (h' : r'.Resembles r'') : r.Resembles r'' where
  cls := h.cls.trans h'.cls
  type := h.type.trans h'.type
  value := h.value.trans h'.value
  attr := h.attr.trans h'.attr
  parent := h.parent.trans h'.parent
  children := h.children.trans h'.children

end NodeRecord.Resembles

namespace Store

variable {s t u : Store}

/-- The stores differ in hints, in the debug log, and in which of the nodes without children have a list. -/
structure Resembles (s t : Store) : Prop where
  size : s.nodes.size = t.nodes.size
  objects : s.objects = t.objects
  logIsRead : s.logIsRead = t.logIsRead
  node : ∀ n, (s.node n).Resembles (t.node n)

namespace Resembles

theorem refl (s : Store) : s.Resembles s := ⟨rfl, rfl, rfl, fun n => .refl (s.node n)⟩

theorem symm (h : s.Resembles t) : t.Resembles s :=
  ⟨h.size.symm, h.objects.symm, h.logIsRead.symm, fun n => (h.node n).symm⟩

theorem trans (h : s.Resembles t) (h' : t.Resembles u) : s.Resembles u where
  size := h.size.trans h'.size
  objects := h.objects.trans h'.objects
  logIsRead := h.logIsRead.trans h'.logIsRead
  node n := (h.node n).trans (h'.node n)

theorem cls (h : s.Resembles t) (n : NodeId) : (s.node n).cls = (t.node n).cls := (h.node n).cls

theorem type (h : s.Resembles t) (n : NodeId) : (s.node n).type = (t.node n).type := (h.node n).type

theorem value (h : s.Resembles t) (n : NodeId) : (s.node n).value = (t.node n).value := (h.node n).value

theorem attr (h : s.Resembles t) (n : NodeId) : (s.node n).attr = (t.node n).attr := (h.node n).attr

theorem parent (h : s.Resembles t) (n : NodeId) : (s.node n).parent = (t.node n).parent :=
  (h.node n).parent

theorem children (h : s.Resembles t) (n : NodeId) : s.children n = t.children n := (h.node n).children

/-- The same change of a node in both stores. -/
theorem updateNode (h : s.Resembles t) (n : NodeId) {f g : NodeRecord → NodeRecord}
    (hfg : ∀ r r', r.Resembles r' → (f r).Resembles (g r')) :
    (s.updateNode n f).Resembles (t.updateNode n g) where
  size := by rw [size_updateNode, size_updateNode, h.size]
  objects := h.objects
  logIsRead := h.logIsRead
  node m := by
    rw [node_updateNode, node_updateNode, h.size]
    split
    · exact hfg _ _ (h.node m)
    · exact h.node m

theorem setParent (h : s.Resembles t) (n : NodeId) (parent : Option Value) :
    (s.setParent n parent).Resembles (t.setParent n parent) :=
  h.updateNode n fun _ _ hr => ⟨hr.cls, hr.type, hr.value, hr.attr, rfl, hr.children⟩

theorem setNodes (h : s.Resembles t) (n : NodeId) (nodes : Option (List Value)) :
    (s.setNodes n nodes).Resembles (t.setNodes n nodes) :=
  h.updateNode n fun _ _ hr => ⟨hr.cls, hr.type, hr.value, hr.attr, hr.parent, rfl⟩

theorem addObject (h : s.Resembles t) (o : Object) : (s.addObject o).Resembles (t.addObject o) where
  size := h.size
  objects := by rw [Store.addObject, Store.addObject, h.objects]
  logIsRead := h.logIsRead
  node := h.node

end Resembles

/-! ## What does not ask for relatives -/

/-- The stores have the same objects, and their nodes the same classes and attributes. -/
structure Akin (s t : Store) : Prop where
  objects : s.objects = t.objects
  cls : ∀ n, (s.node n).cls = (t.node n).cls
  attr : ∀ n, (s.node n).attr = (t.node n).attr

namespace Akin

theorem object_eq (h : s.Akin t) (o : ObjectId) : s.object o = t.object o := by
  rw [object, object, h.objects]

theorem object?_eq (h : s.Akin t) (v : Value) : s.object? v = t.object? v := by
  cases v with
  | object o => rw [object?, object?, h.object_eq]
  | _ => rfl

theorem detached_eq (h : s.Akin t) (n : NodeId) : s.detached n = t.detached n := by
  rw [detached, detached, h.cls]

theorem kindName_eq (h : s.Akin t) (v : Value) : s.kindName v = t.kindName v := by
  cases v with
  | node n => simp only [kindName, h.cls]
  | object o => simp only [kindName, h.object_eq]
  | _ => rfl

theorem qualifiedKindName_eq (h : s.Akin t) (v : Value) :
    s.qualifiedKindName v = t.qualifiedKindName v := by
  simp only [qualifiedKindName, h.kindName_eq]

theorem truthy_eq (h : s.Akin t) (v : Value) : s.truthy v = t.truthy v := by
  cases v with
  | object o => simp only [truthy, h.object_eq]
  | _ => rfl

theorem entries?_eq (h : s.Akin t) (v : Value) : s.entries? v = t.entries? v := by
  simp only [entries?, h.object?_eq]

theorem attributes_eq (h : s.Akin t) (n : NodeId) : s.attributes n = t.attributes n := by
  simp only [attributes, h.attr, h.entries?_eq]

theorem items_eq (h : s.Akin t) (v : Value) : s.items v = t.items v := by
  simp only [items, h.object?_eq, h.qualifiedKindName_eq]

theorem placeOf_eq (h : s.Akin t) (sequence : String) (length : Nat) (outside : Fault)
    (v : Value) : s.placeOf sequence length outside v = t.placeOf sequence length outside v := by
  simp only [placeOf, h.qualifiedKindName_eq]

theorem listItem_eq (h : s.Akin t) (sequence : String) (items : List Value) (v : Value) :
    s.listItem sequence items v = t.listItem sequence items v := by
  simp only [listItem, h.placeOf_eq]

theorem equalWithin_eq (h : s.Akin t) (fuel : Nat) : s.equalWithin fuel = t.equalWithin fuel := by
  induction fuel with
  | zero => rfl
  | succ fuel ih => funext pending a b; simp only [equalWithin, h.object?_eq, ih]

theorem equal_eq (h : s.Akin t) (a b : Value) : s.equal a b = t.equal a b := by
  simp only [equal, h.equalWithin_eq, h.objects]

theorem keyAs_eq (h : s.Akin t) (es : Entries Value) (key : Key) : s.keyAs es key = t.keyAs es key := by
  have hsame : s.sameKey = t.sameKey := by
    funext key k
    simp only [sameKey, samePart, h.equal_eq]
  simp only [keyAs, hsame]

theorem putEach_eq (h : s.Akin t) (es fs : Entries Value) : s.putEach es fs = t.putEach es fs := by
  simp only [putEach, h.keyAs_eq]

theorem itemAt_eq (h : s.Akin t) (v position : Value) :
    s.itemAt v position = t.itemAt v position := by
  simp only [itemAt, h.object?_eq, h.keyAs_eq, h.items_eq, h.kindName_eq, h.qualifiedKindName_eq,
    h.listItem_eq]

theorem freeField?_eq (h : s.Akin t) (v : Value) (name : String) :
    s.freeField? v name = t.freeField? v name := by
  simp only [freeField?, h.object?_eq]

theorem missing_eq (h : s.Akin t) (v : Value) (name : String) :
    s.missing v name = t.missing v name := by
  simp only [missing, h.kindName_eq, h.qualifiedKindName_eq]

theorem freeField_eq (h : s.Akin t) (v : Value) (name : String) :
    s.freeField v name = t.freeField v name := by
  simp only [freeField, h.freeField?_eq, h.missing_eq]

theorem extra_eq (h : s.Akin t) (n : NodeId) (name : String) :
    s.extra n name = t.extra n name := by
  simp only [extra, h.itemAt_eq, h.attr, h.cls]

theorem substitute?_eq (h : s.Akin t) (v : Value) (operation : String) :
    s.substitute? v operation = t.substitute? v operation := by
  simp only [substitute?, h.attributes_eq, h.freeField?_eq]

theorem refusal_eq (h : s.Akin t) (v : Value) (operation : String) :
    s.refusal v operation = t.refusal v operation := by
  simp only [refusal, h.substitute?_eq, h.qualifiedKindName_eq, h.missing_eq]

end Akin

theorem Resembles.akin (h : s.Resembles t) : s.Akin t := ⟨h.objects, h.cls, h.attr⟩

/-! ## Records and objects -/

theorem Resembles.object_eq (h : s.Resembles t) (o : ObjectId) : s.object o = t.object o :=
  h.akin.object_eq o

theorem Resembles.object?_eq (h : s.Resembles t) (v : Value) : s.object? v = t.object? v :=
  h.akin.object?_eq v

/-- What is the same of all nodes, one by one, is the same of the stores. -/
theorem map_nodes_ext {α : Type} (f : NodeRecord → α) (hsize : s.nodes.size = t.nodes.size)
    (hnode : ∀ n < s.nodes.size, f (s.node n) = f (t.node n)) : s.nodes.map f = t.nodes.map f := by
  apply Array.ext
  · rw [Array.size_map, Array.size_map, hsize]
  · intro n hn hn'
    rw [Array.size_map] at hn hn'
    have hsame := hnode n hn
    simp only [node, Array.getD_eq_getD_getElem?, Array.getElem?_eq_getElem hn,
      Array.getElem?_eq_getElem hn', Option.getD_some] at hsame
    rw [Array.getElem_map, Array.getElem_map, hsame]

theorem Resembles.classes_eq (h : s.Resembles t) :
    s.nodes.map NodeRecord.cls = t.nodes.map NodeRecord.cls :=
  map_nodes_ext NodeRecord.cls h.size fun n _ => h.cls n

theorem Resembles.parentValue_eq (h : s.Resembles t) (n : NodeId) : s.parentValue n = t.parentValue n := by
  rw [parentValue, parentValue, h.parent]

theorem Resembles.detached_eq (h : s.Resembles t) (n : NodeId) : s.detached n = t.detached n :=
  h.akin.detached_eq n

/-! ## What a value is -/

theorem Resembles.kindName_eq (h : s.Resembles t) (v : Value) : s.kindName v = t.kindName v :=
  h.akin.kindName_eq v

theorem Resembles.qualifiedKindName_eq (h : s.Resembles t) (v : Value) :
    s.qualifiedKindName v = t.qualifiedKindName v :=
  h.akin.qualifiedKindName_eq v

theorem Resembles.nodeClass?_eq (h : s.Resembles t) (name : String) :
    s.nodeClass? name = t.nodeClass? name := by
  have hfind (u : Store) : (u.nodes.find? fun r => r.cls.name == name).map NodeRecord.cls =
      (u.nodes.map NodeRecord.cls).find? fun cls => cls.name == name := by
    rw [Array.find?_map]
    rfl
  simp only [nodeClass?, hfind, h.classes_eq]

theorem Resembles.isNode_eq (h : s.Resembles t) (v : Value) : s.isNode v = t.isNode v := by
  cases v with
  | object o => simp only [isNode, marker?, h.object_eq]
  | _ => rfl

theorem Resembles.truthy_eq (h : s.Resembles t) (v : Value) : s.truthy v = t.truthy v :=
  h.akin.truthy_eq v

theorem Resembles.entries?_eq (h : s.Resembles t) (v : Value) : s.entries? v = t.entries? v :=
  h.akin.entries?_eq v

theorem Resembles.attributes_eq (h : s.Resembles t) (n : NodeId) : s.attributes n = t.attributes n :=
  h.akin.attributes_eq n

theorem Resembles.requireNode_eq (h : s.Resembles t) (action : String) (v : Value) :
    s.requireNode action v = t.requireNode action v := by
  simp only [requireNode, h.isNode_eq, h.kindName_eq]

theorem Resembles.requireNodes_eq (h : s.Resembles t) (action : String) (vs : List Value) :
    s.requireNodes action vs = t.requireNodes action vs := by
  induction vs with
  | nil => rfl
  | cons v vs ih => rw [requireNodes, requireNodes, h.requireNode_eq, ih]

/-! ## Sequences and fields -/

theorem Resembles.items_eq (h : s.Resembles t) (v : Value) : s.items v = t.items v :=
  h.akin.items_eq v

theorem Resembles.placeOf_eq (h : s.Resembles t) (sequence : String) (length : Nat) (outside : Fault)
    (v : Value) : s.placeOf sequence length outside v = t.placeOf sequence length outside v :=
  h.akin.placeOf_eq sequence length outside v

theorem Resembles.listItem_eq (h : s.Resembles t) (sequence : String) (items : List Value) (v : Value) :
    s.listItem sequence items v = t.listItem sequence items v :=
  h.akin.listItem_eq sequence items v

theorem Resembles.itemAt_eq (h : s.Resembles t) (v position : Value) :
    s.itemAt v position = t.itemAt v position :=
  h.akin.itemAt_eq v position

theorem Resembles.freeField?_eq (h : s.Resembles t) (v : Value) (name : String) :
    s.freeField? v name = t.freeField? v name :=
  h.akin.freeField?_eq v name

theorem Resembles.missing_eq (h : s.Resembles t) (v : Value) (name : String) :
    s.missing v name = t.missing v name :=
  h.akin.missing_eq v name

theorem Resembles.freeField_eq (h : s.Resembles t) (v : Value) (name : String) :
    s.freeField v name = t.freeField v name :=
  h.akin.freeField_eq v name

theorem Resembles.extra_eq (h : s.Resembles t) (n : NodeId) (name : String) :
    s.extra n name = t.extra n name :=
  h.akin.extra_eq n name

theorem Resembles.substitute?_eq (h : s.Resembles t) (v : Value) (operation : String) :
    s.substitute? v operation = t.substitute? v operation :=
  h.akin.substitute?_eq v operation

theorem Resembles.refusal_eq (h : s.Resembles t) (v : Value) (operation : String) :
    s.refusal v operation = t.refusal v operation :=
  h.akin.refusal_eq v operation

theorem Resembles.actor_eq (h : s.Resembles t) (operation : String) (v : Value) :
    s.actor operation v = t.actor operation v := by
  have hbound : (s.freeField? v operation).bind s.object? = (t.freeField? v operation).bind t.object? := by
    rw [h.freeField?_eq, funext h.object?_eq]
  cases v <;> simp only [actor, hbound, h.refusal_eq]

/-! ## Kin -/

theorem Resembles.typeOf_eq (h : s.Resembles t) (v : Value) : s.typeOf v = t.typeOf v := by
  cases v with
  | node n => simp only [typeOf, h.type]
  | _ => simp only [typeOf, h.freeField_eq]

theorem Resembles.parentOf_eq (h : s.Resembles t) (v : Value) : s.parentOf v = t.parentOf v := by
  cases v with
  | node n => simp only [parentOf, h.parentValue_eq]
  | _ => simp only [parentOf, h.freeField_eq]

theorem Resembles.scanned_eq (h : s.Resembles t) (siblings : List Value) (n : NodeId) :
    s.scanned siblings n = t.scanned siblings n := by
  simp only [scanned, h.detached_eq]

theorem Resembles.first_eq (h : s.Resembles t) (n : NodeId) : s.first n = t.first n := by
  simp only [first, h.children]

theorem Resembles.last_eq (h : s.Resembles t) (n : NodeId) : s.last n = t.last n := by
  simp only [last, h.children]

theorem Resembles.scope_eq (h : s.Resembles t) (n : NodeId) : s.scope n = t.scope n := by
  simp only [scope, h.entries?_eq, h.truthy_eq, h.parentValue_eq, h.refusal_eq, h.extra_eq, h.attr]

/-! ## Equality and types -/

theorem Resembles.equal_eq (h : s.Resembles t) (a b : Value) : s.equal a b = t.equal a b :=
  h.akin.equal_eq a b

theorem Resembles.compileWithin_eq (h : s.Resembles t) (fuel : Nat) :
    s.compileWithin fuel = t.compileWithin fuel := by
  induction fuel with
  | zero => rfl
  | succ fuel ih =>
      funext v
      cases v with
      | object o => simp only [compileWithin, h.kindName_eq, h.object_eq, ih]
      | _ => simp only [compileWithin, h.kindName_eq]

theorem Resembles.compile_eq (h : s.Resembles t) (v : Value) : s.compile v = t.compile v := by
  simp only [compile, h.compileWithin_eq, h.objects]

theorem Resembles.valueAccepts_eq (h : s.Resembles t) (type : Value) (fuel : Nat) :
    s.valueAccepts type fuel = t.valueAccepts type fuel := by
  induction fuel with
  | zero => rfl
  | succ fuel ih =>
      funext v
      simp only [valueAccepts, h.object?_eq, h.equal_eq, h.refusal_eq, h.items_eq, ih]

theorem Resembles.objectAccepts_eq (h : s.Resembles t) (m type : Value) :
    s.objectAccepts m type = t.objectAccepts m type := by
  simp only [objectAccepts, h.valueAccepts_eq, h.objects]

mutual

theorem Resembles.accepts_eq (h : s.Resembles t) (type : Value) : (m : Matcher) →
    s.accepts type m = t.accepts type m
  | .equals _ => rfl
  | .search _ => rfl
  | .anyOf alternatives => by simp only [accepts, h.someAccepts_eq type alternatives]
  | .given _ => by simp only [accepts, h.objectAccepts_eq]

theorem Resembles.someAccepts_eq (h : s.Resembles t) (type : Value) : (ms : List Matcher) →
    s.someAccepts type ms = t.someAccepts type ms
  | [] => rfl
  | m :: ms => by simp only [someAccepts, h.accepts_eq type m, h.someAccepts_eq type ms]

end

/-! ## Search -/

theorem Resembles.findFirst_eq (h : s.Resembles t) (m : Matcher) (vs : List Value) :
    s.findFirst m vs = t.findFirst m vs := by
  induction vs with
  | nil => rfl
  | cons v vs ih => simp only [findFirst, h.typeOf_eq, h.accepts_eq, ih]

theorem Resembles.find_eq (h : s.Resembles t) (n : NodeId) (v : Value) : s.find n v = t.find n v := by
  cases v <;>
    simp only [find, h.children, h.compile_eq, h.findFirst_eq]

theorem Resembles.isType_eq (h : s.Resembles t) (n : NodeId) (v : Value) : s.isType n v = t.isType n v := by
  simp only [isType, h.compile_eq, h.accepts_eq, h.type]

theorem Resembles.hasType_eq (h : s.Resembles t) (n : NodeId) (v : Value) :
    s.hasType n v = t.hasType n v := by
  simp only [hasType, h.compile_eq, h.findFirst_eq, h.children]

theorem Resembles.someAncestor_eq (h : s.Resembles t) (m : Matcher) (fuel : Nat) :
    s.someAncestor m fuel = t.someAncestor m fuel := by
  induction fuel with
  | zero => rfl
  | succ fuel ih =>
      funext v
      cases v <;> simp only [someAncestor, h.typeOf_eq, h.accepts_eq, h.parentOf_eq, ih]

theorem Resembles.isInside_eq (h : s.Resembles t) (n : NodeId) (v : Value) :
    s.isInside n v = t.isInside n v := by
  simp only [isInside, h.compile_eq, h.someAncestor_eq, h.size, h.objects,
    h.parentValue_eq]

/-! ## Trees -/

theorem Resembles.subtrees_eq (h : s.Resembles t) (operation : String)
    (unfold : NodeId → Except Fault Subtree) (vs : List Value) :
    s.subtrees operation unfold vs = t.subtrees operation unfold vs := by
  induction vs with
  | nil => rfl
  | cons v vs ih => simp only [subtrees, h.actor_eq, ih]

theorem Resembles.subtreeWithin_eq (h : s.Resembles t) (operation : String) (fuel : Nat) :
    s.subtreeWithin operation fuel = t.subtreeWithin operation fuel := by
  induction fuel with
  | zero => rfl
  | succ fuel ih =>
      funext n
      simp only [subtreeWithin, h.subtrees_eq, h.children, ih]

theorem Resembles.subtree_eq (h : s.Resembles t) (operation : String) (n : NodeId) :
    s.subtree operation n = t.subtree operation n := by
  simp only [subtree, h.subtreeWithin_eq, h.size]

theorem Resembles.carriesValue_eq (h : s.Resembles t) (n : NodeId) :
    s.carriesValue n = t.carriesValue n := by
  simp only [carriesValue, h.value]

theorem Resembles.allEmpty_eq (h : s.Resembles t) (search : NodeId → Except Fault Emptiness)
    (vs : List Value) : s.allEmpty search vs = t.allEmpty search vs := by
  induction vs with
  | nil => rfl
  | cons v vs ih => simp only [allEmpty, h.actor_eq, ih]

theorem Resembles.emptinessWithin_eq (h : s.Resembles t) (test : NodeId → Except Fault Bool) (fuel : Nat) :
    s.emptinessWithin test fuel = t.emptinessWithin test fuel := by
  induction fuel with
  | zero => rfl
  | succ fuel ih =>
      funext n
      simp only [emptinessWithin, h.carriesValue_eq, h.allEmpty_eq, h.children, ih]

theorem Resembles.emptiness_eq (h : s.Resembles t) (test : NodeId → Except Fault Bool) (n : NodeId) :
    s.emptiness test n = t.emptiness test n := by
  simp only [emptiness, h.emptinessWithin_eq, h.size]

theorem Resembles.isEmpty_eq (h : s.Resembles t) (n : NodeId) : s.isEmpty n = t.isEmpty n := by
  simp only [isEmpty, h.emptiness_eq]

/-! ## Outlines -/

theorem Resembles.requireHashableWithin_eq (h : s.Resembles t) (fuel : Nat) :
    s.requireHashableWithin fuel = t.requireHashableWithin fuel := by
  induction fuel with
  | zero => rfl
  | succ fuel ih =>
      funext v
      simp only [requireHashableWithin, h.object?_eq, h.kindName_eq, ih]

theorem Resembles.requireHashable_eq (h : s.Resembles t) (v : Value) :
    s.requireHashable v = t.requireHashable v := by
  simp only [requireHashable, h.requireHashableWithin_eq, h.objects]

theorem Resembles.entriesOf_eq (h : s.Resembles t) (place : Nat) (vs : List Value) :
    s.entriesOf place vs = t.entriesOf place vs := by
  induction vs generalizing place with
  | nil => rfl
  | cons v vs ih => simp only [entriesOf, entryOf, h.items_eq, h.requireHashable_eq, ih]

theorem Resembles.entriesIn_eq (h : s.Resembles t) (v : Value) : s.entriesIn v = t.entriesIn v := by
  simp only [entriesIn, h.entries?_eq, h.substitute?_eq, h.refusal_eq, h.items_eq,
    h.entriesOf_eq, h.akin.putEach_eq]

theorem Resembles.outlineFields_eq (h : s.Resembles t) (n : NodeId) :
    s.outlineFields n = t.outlineFields n := by
  simp only [outlineFields, h.type, h.value, h.attr, h.entriesIn_eq]

theorem Resembles.outlineAll_eq (h : s.Resembles t) (outline : NodeId → Except Fault Outline)
    (vs : List Value) : s.outlineAll outline vs = t.outlineAll outline vs := by
  induction vs with
  | nil => rfl
  | cons v vs ih => simp only [outlineAll, h.actor_eq, ih]

/-- An outline tells an empty list of children from none. -/
theorem Resembles.outlineWithin_eq (h : s.Resembles t) (hnodes : ∀ n, (s.node n).nodes = (t.node n).nodes)
    (fuel : Nat) : s.outlineWithin fuel = t.outlineWithin fuel := by
  induction fuel with
  | zero => rfl
  | succ fuel ih =>
      funext n
      simp only [outlineWithin, h.outlineFields_eq, hnodes, h.outlineAll_eq, ih]

theorem Resembles.outline_eq (h : s.Resembles t) (hnodes : ∀ n, (s.node n).nodes = (t.node n).nodes)
    (n : NodeId) : s.outline n = t.outline n := by
  simp only [outline, h.outlineWithin_eq hnodes, h.size]

/-! ## Extra attributes -/

theorem Resembles.getAttributes_eq (h : s.Resembles t) (n : NodeId) (name fallback : Value) :
    s.getAttributes n name fallback = t.getAttributes n name fallback := by
  simp only [getAttributes, h.attr, h.entries?_eq, h.refusal_eq, h.requireHashable_eq, h.akin.keyAs_eq]

theorem Resembles.mappingEntries_eq (h : s.Resembles t) (v : Value) :
    s.mappingEntries v = t.mappingEntries v := by
  simp only [mappingEntries, h.truthy_eq, h.entries?_eq, h.qualifiedKindName_eq]

/-! ## Texts -/

theorem Resembles.displayObject_eq (h : s.Resembles t) (shown : Value → Except Fault String) (o : Object) :
    s.displayObject shown o = t.displayObject shown o := by
  cases o with
  | method owner name => cases owner <;> simp only [displayObject, methodClass, h.kindName_eq]
  | _ => rfl

theorem Resembles.displayNode_eq (h : s.Resembles t) (shown : Value → Except Fault String) (n : NodeId) :
    displayNode shown (s.node n) = displayNode shown (t.node n) := by
  have hcount : ((s.node n).nodes.getD []).length = ((t.node n).nodes.getD []).length :=
    congrArg List.length (h.children n)
  simp only [displayNode, h.cls, h.type, h.value, hcount]

theorem Resembles.displayWithin_eq (h : s.Resembles t) (fuel : Nat) :
    s.displayWithin fuel = t.displayWithin fuel := by
  induction fuel with
  | zero => rfl
  | succ fuel ih =>
      funext within entered v
      cases v with
      | node n => simp only [displayWithin, h.displayNode_eq, ih]
      | object o => simp only [displayWithin, h.displayObject_eq, h.object_eq, ih]
      | _ => rfl

theorem Resembles.display_eq (h : s.Resembles t) (v : Value) : s.display v = t.display v := by
  simp only [display, h.displayWithin_eq, h.size, h.objects]

end Store

/-! ## The store without its hints -/

/-- The record with the hint that a new node has. -/
def NodeRecord.unhinted (r : NodeRecord) : NodeRecord := { r with hint := .int r.cls.detached }

namespace Store

/-- The store without what the hints, the debug log and the trust in hints tell. -/
def unhinted (s : Store) : Store :=
  { s with nodes := s.nodes.map NodeRecord.unhinted, log := #[], trustsHints := false }

@[simp] theorem node_unhinted (s : Store) (n : NodeId) : s.unhinted.node n = (s.node n).unhinted := by
  unfold node unhinted
  by_cases h : n < s.nodes.size
  · simp [Array.getD_eq_getD_getElem?, h]
  · simp only [Array.getD_eq_getD_getElem?, Array.getElem?_map,
      Array.getElem?_eq_none (Nat.le_of_not_lt h)]
    rfl

@[simp] theorem size_unhinted (s : Store) : s.unhinted.nodes.size = s.nodes.size := Array.size_map

theorem resembles_unhinted (s : Store) : s.unhinted.Resembles s where
  size := size_unhinted s
  objects := rfl
  logIsRead := rfl
  node n := by
    rw [node_unhinted]
    exact ⟨rfl, rfl, rfl, rfl, rfl, rfl⟩

/-- Stores that are the same without hints resemble each other. -/
theorem resembles_of_unhinted {s t : Store} (h : s.unhinted = t.unhinted) : s.Resembles t :=
  (resembles_unhinted s).symm.trans (h ▸ resembles_unhinted t)

end Store
end SyntaxTree
