import SyntaxTree.Binary64.Notation
import SyntaxTree.Pattern.Parser

/-!
# `Value` — what a field of a node may hold

A value is a scalar, or the identity of something that lives in a store: a node, or an object such as a
list, a map or a source location. Two values that name the same node or object are the very same thing,
and what is done to it through one is seen through the other; so equality of `Value`s is *identity*.
Equality of contents (`Store.equal`) needs the store.
-/

namespace SyntaxTree

/-- The identity of a node: its place in the store. -/
abbrev NodeId := Nat

/-- The identity of an object that is not a node: its place in the store. -/
abbrev ObjectId := Nat

/-- The shapes of a compiled matcher. -/
inductive MatcherKind
  | string
  | pattern
  | anyOf
deriving DecidableEq, Repr, Inhabited

namespace MatcherKind

/-- The name of the kind. -/
def name : MatcherKind → String
  | string => "STRING"
  | pattern => "PATTERN"
  | anyOf => "ANY_OF"

/-- The kinds are numbered from one. -/
def number : MatcherKind → Nat
  | string => 1
  | pattern => 2
  | anyOf => 3

end MatcherKind

/-- A scalar, or the identity of a node or an object. -/
inductive Value
  | null
  | bool (b : Bool)
  | int (i : Int)
  | float (x : Binary64)
  | text (s : String)
  | bytes (bs : List UInt8)
  | pattern (p : Pattern)
  | kind (k : MatcherKind)
  /-- A class of nodes or of other objects, by its name. -/
  | cls (name : String)
  | node (n : NodeId)
  | object (o : ObjectId)
deriving DecidableEq, Repr, Inhabited

namespace Value

/-- Only nodes and objects hold links to other values. -/
def isLink : Value → Bool
  | .node _ | .object _ => true
  | _ => false

/-- The integer that a number equals, if it equals one; the truth values count as one and zero. -/
def toInt? : Value → Option Int
  | .int i => some i
  | .bool b => some (if b then 1 else 0)
  | .float x => x.toInt?
  | _ => none

/-- Equality of scalars: numbers by what they count, all else by identity. -/
def equalScalar (a b : Value) : Bool :=
  match a, b with
  | .float x, .float y => x.equal y
  | a, b =>
    match a.toInt?, b.toInt? with
    | some i, some j => i == j
    | none, none => a = b
    | _, _ => false

/-- Whether the value is a number equal to `i`. -/
def equalsInt (v : Value) (i : Int) : Bool := v.toInt? == some i

@[simp] theorem equalsInt_int (i j : Int) : (Value.int i).equalsInt j = (i == j) := by
  simp [equalsInt, toInt?]

/-- A text equals itself and nothing else. -/
theorem equalScalar_text (v : Value) (t : String) : v.equalScalar (.text t) = (v == .text t) := by
  have toInt?_text : (Value.text t).toInt? = none := rfl
  cases hv : v.toInt? with
  | none => cases v <;> simp_all [equalScalar, Bool.beq_eq_decide_eq]
  | some i => cases v <;> simp_all [equalScalar, toInt?]

theorem text_equalScalar (t : String) (v : Value) : (Value.text t).equalScalar v = (v == .text t) := by
  cases v with
  | text x => simp [equalScalar, toInt?, Bool.beq_eq_decide_eq, @eq_comm _ t x]
  | float x => cases hx : x.toInt? <;> simp [equalScalar, toInt?, hx]
  | _ => simp [equalScalar, toInt?]

end Value

end SyntaxTree
