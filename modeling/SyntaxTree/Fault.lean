/-!
# `Fault` — why an operation fails

Each constructor is one cause. `Fault.message` holds the wording of all of them, and `Fault.category`
the family that a caller may tell them apart by. The faults of the attribute families are those that a
reading of a computed property recovers from (`Fault.isAttribute`).
-/

namespace SyntaxTree

/-- The families of faults. -/
inductive Fault.Category
  /-- An argument of the wrong shape. -/
  | invalidArgument
  /-- An assignment to a computed property. -/
  | invalidOperation
  /-- An attribute that is missing or cannot be set. -/
  | attribute
  /-- A field of an immutable record. -/
  | frozen
  /-- A value that does not support what is asked of it. -/
  | type
  /-- A value of the right kind that is not what is needed. -/
  | value
  /-- A position outside of a list. -/
  | index
  /-- A key that a map does not have. -/
  | key
  /-- A recursion without end. -/
  | endless
deriving DecidableEq, Repr, Inhabited

/-- The causes of failure; a `kind` is the name of the class of the value at fault. -/
inductive Fault
  /-- Something else was given where a node is required. -/
  | expectedNode (action kind : String)
  /-- A leaf of a matcher that is neither a text, a pattern nor a compiled matcher. -/
  | unsupportedMatcher (kind : String)
  /-- A computed property cannot be assigned. -/
  | computedProperty (name : String)
  | missingAttribute (kind name : String)
  /-- A missing attribute of a class itself. -/
  | missingOnClass (cls name : String)
  /-- A missing attribute whose name begins with two underscores. -/
  | missingReserved (name : String)
  | readOnlyAttribute (kind name : String)
  | noSetter (kind name : String)
  /-- A slot of the objects of a class that keeps what is in it. -/
  | notWritable (cls name : String)
  | notAClass (kind : String)
  /-- The objects of one class cannot become objects of another. -/
  | otherLayout (cls kind : String)
  | frozenField (name : String)
  /-- An immutable record refuses a name that is not one of its fields. -/
  | unknownFrozenField
  | notIterable (kind : String)
  | notMapping (kind : String)
  | notCallable (kind : String)
  | notSubscriptable (kind : String)
  | classNotSubscriptable (cls : String)
  | unhashable (kind : String)
  | noLength (kind : String)
  /-- A position hint that cannot be compared with zero. -/
  | notOrdered (kind : String)
  /-- A sequence was asked for an item by something else than a position. -/
  | badPosition (sequence kind : String)
  | noItemDeletion (kind : String)
  | noItemAssignment (kind : String)
  /-- A number was to be added to something that is not a number. -/
  | notAddable (kind : String)
  /-- A number was to be joined to a text or tuple. -/
  | onlyJoins (kind : String)
  /-- A number was to be joined to a byte string. -/
  | onlyJoinsBytes
  /-- Text was to be counted in a byte string. -/
  | needsBytes
  | takesNoArguments (kind : String)
  /-- More arguments by position than there are, besides some that are given by name alone. -/
  | tooManyArguments (operation : String) (least most given byName : Nat)
  | missingArguments (operation : String) (names : List String)
  | repeatedArgument (operation name : String)
  | unexpectedArgument (operation name : String)
  /-- An item of what is taken for a list of entries has no items of its own. -/
  | noEntry (place : Nat)
  /-- An item of what is taken for a list of entries has not two items. -/
  | wrongEntryLength (place length : Nat)
  /-- A position to write at lies outside of the list. -/
  | placeOutOfRange
  /-- A position to read at lies outside of the sequence. -/
  | indexOutOfRange (sequence : String)
  | indexTooLarge
  | popFromEmpty
  | missingKey (shown : String)
  | endless
deriving DecidableEq, Repr, Inhabited

namespace Fault

/-- The family of a fault. -/
def category : Fault → Category
  | .expectedNode .. | .unsupportedMatcher .. => .invalidArgument
  | .computedProperty .. => .invalidOperation
  | .missingAttribute .. | .missingOnClass .. | .missingReserved .. | .readOnlyAttribute ..
  | .noSetter .. | .notWritable .. => .attribute
  | .frozenField .. => .frozen
  | .wrongEntryLength .. => .value
  | .placeOutOfRange | .indexOutOfRange .. | .indexTooLarge | .popFromEmpty => .index
  | .missingKey .. => .key
  | .endless => .endless
  | _ => .type

/-- The faults of attribute access, from which the reading of a computed property recovers. -/
def isAttribute (f : Fault) : Bool :=
  f.category == .attribute || f.category == .invalidOperation || f.category == .frozen

/-- Text between single quotes. -/
def inQuotes (s : String) : String := "'" ++ s ++ "'"

/-- A noun with the ending of its number. -/
def plural (noun : String) (many : Bool) : String := if many then noun ++ "s" else noun

/-- Names in quotes, the last one after an "and". -/
def enumerated : List String → String
  | [] => ""
  | [a] => inQuotes a
  | [a, b] => inQuotes a ++ " and " ++ inQuotes b
  | a :: rest => inQuotes a ++ ", " ++ (match rest with
      | [b, c] => inQuotes b ++ ", and " ++ inQuotes c
      | rest => enumerated rest)

/-- What is said about too many arguments by position. -/
def argumentsMessage (least most given byName : Nat) : String :=
  let allowed := if least < most then "from " ++ toString least ++ " to " ++ toString most
    else toString most
  let named := if byName = 0 then "" else
    plural " positional argument" (given != 1) ++ " (and " ++ toString byName ++
      plural " keyword-only argument" (byName != 1) ++ ")"
  let verb := if given = 1 ∧ byName = 0 then " was given" else " were given"
  "() takes " ++ allowed ++ plural " positional argument" (least < most || most != 1) ++ " but " ++
    toString given ++ named ++ verb

/-- What is said about a position of the wrong kind. -/
def positionMessage (sequence kind : String) : String :=
  match sequence with
  | "str" => "string indices must be integers, not " ++ inQuotes kind
  | "bytes" => "byte indices must be integers or slices, not " ++ kind
  | other => other ++ " indices must be integers or slices, not " ++ kind

/-- What is said about a position outside of a sequence. -/
def rangeMessage (sequence : String) : String :=
  match sequence with
  | "str" => "string index out of range"
  | "bytes" => "index out of range"
  | other => other ++ " index out of range"

/-- The wording of a fault. -/
def message : Fault → String
  | expectedNode action kind => "expected " ++ action ++ "() to receive a Node, not " ++ kind
  | unsupportedMatcher kind =>
    "expected type matcher to be a string, pattern, or sequence, not " ++ kind
  | computedProperty name => inQuotes name ++ " getter cannot be set"
  | missingAttribute kind name => inQuotes kind ++ " object has no attribute " ++ inQuotes name
  | missingOnClass cls name =>
    "type object " ++ inQuotes cls ++ " has no attribute " ++ inQuotes name
  | missingReserved name => name
  | readOnlyAttribute kind name =>
    inQuotes kind ++ " object attribute " ++ inQuotes name ++ " is read-only"
  | noSetter kind name =>
    "property " ++ inQuotes name ++ " of " ++ inQuotes kind ++ " object has no setter"
  | notWritable cls name =>
    "attribute " ++ inQuotes name ++ " of " ++ inQuotes cls ++ " objects is not writable"
  | notAClass kind => "__class__ must be set to a class, not " ++ inQuotes kind ++ " object"
  | otherLayout cls kind =>
    "__class__ assignment: " ++ inQuotes cls ++ " object layout differs from " ++ inQuotes kind
  | frozenField name => "cannot assign to field " ++ inQuotes name
  | unknownFrozenField => "super(type, obj): obj must be an instance or subtype of type"
  | notIterable kind => inQuotes kind ++ " object is not iterable"
  | notMapping kind => inQuotes kind ++ " object is not a mapping"
  | notCallable kind => inQuotes kind ++ " object is not callable"
  | notSubscriptable kind => inQuotes kind ++ " object is not subscriptable"
  | classNotSubscriptable cls => "type " ++ inQuotes cls ++ " is not subscriptable"
  | unhashable kind => "unhashable type: " ++ inQuotes kind
  | noLength kind => "object of type " ++ inQuotes kind ++ " has no len()"
  | notOrdered kind => "'<=' not supported between instances of 'int' and " ++ inQuotes kind
  | badPosition sequence kind => positionMessage sequence kind
  | noItemDeletion kind => inQuotes kind ++ " object does not support item deletion"
  | noItemAssignment kind => inQuotes kind ++ " object does not support item assignment"
  | notAddable kind => "unsupported operand type(s) for +=: " ++ inQuotes kind ++ " and 'int'"
  | onlyJoins kind => "can only concatenate " ++ kind ++ " (not \"int\") to " ++ kind
  | onlyJoinsBytes => "can't concat int to bytes"
  | needsBytes => "argument should be integer or bytes-like object, not 'str'"
  | takesNoArguments kind => kind ++ "() takes no arguments"
  | tooManyArguments operation least most given byName =>
    operation ++ argumentsMessage least most given byName
  | missingArguments operation names =>
    operation ++ "() missing " ++ toString names.length ++
      plural " required positional argument" (names.length != 1) ++ ": " ++ enumerated names
  | repeatedArgument operation name =>
    operation ++ "() got multiple values for argument " ++ inQuotes name
  | unexpectedArgument operation name =>
    operation ++ "() got an unexpected keyword argument " ++ inQuotes name
  | noEntry place =>
    "cannot convert dictionary update sequence element #" ++ toString place ++ " to a sequence"
  | wrongEntryLength place length =>
    "dictionary update sequence element #" ++ toString place ++ " has length " ++ toString length ++
      "; 2 is required"
  | placeOutOfRange => "list assignment index out of range"
  | indexOutOfRange sequence => rangeMessage sequence
  | indexTooLarge => "cannot fit 'int' into an index-sized integer"
  | popFromEmpty => "pop from empty list"
  | missingKey shown => shown
  | endless => ""

end Fault

end SyntaxTree
