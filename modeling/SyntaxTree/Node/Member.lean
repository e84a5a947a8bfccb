/-!
# `Node.Member` — the names that every node has

A `Member` is a name that the class of nodes itself has: a stored field, a computed property, an
operation or a constant, among them those that every object has. Every other name is an extra attribute.
A member is looked for among the extra attributes only where the reading of a computed property fails.
-/

namespace SyntaxTree

/-- What a name means that the class of nodes has. -/
inductive Member
  | type | value | nodes | attr | hint
  | parent | index
  /-- The parent link itself, as opposed to the parent. -/
  | link
  /-- The children under their second name, which cannot be assigned. -/
  | children
  | siblings | prev | next | first | last | scope
  | detached | reserved | marker | fields
  /-- The class of the node. -/
  | cls
  /-- What watches for the end of the node. -/
  | watchers
  /-- A note on the class. -/
  | remark
  | operation
  /-- What only the class has, and its nodes have not. -/
  | classOnly
deriving DecidableEq, Repr

namespace Member

/-- The names of the operations of nodes. -/
def operations : List String :=
  ["push", "unshift", "pop", "shift", "remove", "find", "is_type", "has_type", "is_inside", "is_empty",
   "clone", "to_dict", "get_attr", "set_attr", "is_node", "_check_node", "_merge_fields", "__init__",
   "__repr__", "__getattr__", "__setattr__"]

/-- The names of the operations that need no node to be asked of. -/
def classOperations : List String := ["is_node"]

/-- The names of the comparisons and the like that every object has. -/
def comparisons : List String :=
  ["__eq__", "__ne__", "__lt__", "__le__", "__gt__", "__ge__", "__hash__", "__str__", "__delattr__",
   "__getattribute__"]

/-- The names of the other operations that every object has. -/
def services : List String :=
  ["__dir__", "__format__", "__getstate__", "__init_subclass__", "__new__", "__reduce__",
   "__reduce_ex__", "__sizeof__", "__subclasshook__"]

/-- The names that a class has for itself and not for its objects. -/
def classNames : List String :=
  ["mro", "__base__", "__bases__", "__basicsize__", "__call__", "__dict__", "__dictoffset__",
   "__flags__", "__instancecheck__", "__itemsize__", "__mro__", "__name__", "__or__", "__prepare__",
   "__qualname__", "__ror__", "__subclasscheck__", "__subclasses__", "__text_signature__",
   "__weakrefoffset__"]

/-- The names of the class of nodes that are not operations. -/
def names : List (String × Member) :=
  [("type", type), ("value", value), ("val", value), ("nodes", nodes), ("attr", attr),
   ("_index", hint), ("_parent", link), ("parent", parent), ("index", index), ("children", children),
   ("siblings", siblings), ("prev", prev), ("next", next), ("first", first), ("last", last),
   ("scope", scope), ("DETACHED", detached), ("computed_names", reserved), ("__astnode__", marker),
   ("__slots__", fields), ("__class__", cls), ("__weakref__", watchers), ("__doc__", remark),
   ("__module__", remark), ("__annotations__", remark)]

/-- The meaning of a name on the class of nodes, if it has one. -/
def ofName? (name : String) : Option Member :=
  match names.lookup name with
  | some m => some m
  | none =>
    if name ∈ operations ∨ name ∈ comparisons ∨ name ∈ services then some .operation
    else if name ∈ classNames then some .classOnly
    else none

/-- The name of the class of an operation that was taken as a value from an object. -/
def operationKind (name : String) : String :=
  if name ∈ comparisons then "method-wrapper"
  else if name ∈ services then "builtin_function_or_method"
  else "method"

/-- The name of the class of an operation that was taken as a value from a class. -/
def classOperationKind (name : String) : String :=
  if name ∈ comparisons then "wrapper_descriptor"
  else if name ∈ services then "method_descriptor"
  else "function"

/-- The name of the class of what stands for a field on the class of nodes. -/
def fieldKind (name : String) : String :=
  if name ∈ ["type", "value", "nodes", "attr", "_parent", "_index"] then "member_descriptor"
  else "property"

/-- A computed property, which refuses assignment. -/
def isComputed : Member → Bool
  | siblings | prev | next | first | last | scope => true
  | _ => false

end Member

end SyntaxTree
