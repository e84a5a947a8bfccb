import SyntaxTree.Store.Field

/-!
# `Matcher.Compile` — from raw matchers to a test on types

A compiled matcher is a test on the type of a node: equality with a text, the search of a pattern, or any
of several alternatives. An alternative may also be an object of the store that was compiled before.

A raw matcher is a text, a pattern, a compiled matcher, or a collection of raw matchers nested to any
depth. Compiling goes through a collection in its order and fails at the first leaf that is none of
these, whatever the other leaves are; a compiled collection accepts what one of its members accepts.

A matcher object holds its kind and its target. It may have been put together by hand from a kind and a
target that do not fit each other: then it fails when, and only when, its target is used.
-/

namespace SyntaxTree

/-- A compiled type matcher. -/
inductive Matcher
  | equals (text : String)
  | search (pattern : Pattern)
  | anyOf (alternatives : List Matcher)
  /-- What was compiled before, or put together by hand. -/
  | given (m : ObjectId)
deriving Inhabited

namespace Store

/-- Compiles each of a list; the first failure decides. -/
def compileAll (compile : Value → Except Fault Matcher) : List Value → Except Fault (List Matcher)
  | [] => .ok []
  | v :: vs => do
    let m ← compile v
    let ms ← compileAll compile vs
    .ok (m :: ms)

/-- Compiles a raw matcher, down to a depth. -/
def compileWithin (s : Store) : Nat → Value → Except Fault Matcher
  | 0, _ => .error .endless
  | fuel + 1, v =>
    match v with
    | .text t => .ok (.equals t)
    | .pattern p => .ok (.search p)
    | .object o =>
      match s.object o with
      | .matcher .. => .ok (.given o)
      | .collection _ items => .anyOf <$> compileAll (compileWithin s fuel) items
      | _ => .error (.unsupportedMatcher (s.kindName v))
    | v => .error (.unsupportedMatcher (s.kindName v))

/-- Compiles a raw matcher. Collections nested deeper than there are objects contain themselves. -/
def compile (s : Store) (v : Value) : Except Fault Matcher :=
  compileWithin s (s.objects.size + 1) v

/-! ## Acceptance -/

/-- Whether one of some things accepts, each asked in turn until one does. -/
def anyAccepts {α : Type} (ask : α → Except Fault Bool) : List α → Except Fault Bool
  | [] => .ok false
  | a :: as => do
    if ← ask a then .ok true else anyAccepts ask as

/-- Whether a pattern is found in a type. -/
def foundIn (p : Pattern) : Value → Bool
  | .text t => p.occursIn t
  | _ => false

/-- Whether a value that should be a matcher object accepts a type, down to a depth. -/
def valueAccepts (s : Store) (type : Value) : Nat → Value → Except Fault Bool
  | 0, _ => .error .endless
  | fuel + 1, v =>
    match s.object? v with
    | some (.matcher .string target) => s.equal type target
    | some (.matcher .pattern target) =>
      match target, type with
      | .pattern p, type => .ok (foundIn p type)
      | target, .text _ => .error (s.refusal target "search")
      | _, _ => .ok false
    | some (.matcher .anyOf target) => do
      let items ← s.items target
      anyAccepts (valueAccepts s type fuel) items
    | _ => .error (s.refusal v "matches")

/-- Whether a matcher object accepts a type. Choices nested deeper than there are objects contain
themselves. -/
def objectAccepts (s : Store) (m : Value) (type : Value) : Except Fault Bool :=
  valueAccepts s type (s.objects.size + 1) m

mutual

/-- Whether a matcher accepts a type. -/
def accepts (s : Store) (type : Value) : Matcher → Except Fault Bool
  | .equals t => .ok (type == .text t)
  | .search p => .ok (foundIn p type)
  | .anyOf alternatives => someAccepts s type alternatives
  | .given m => s.objectAccepts (.object m) type

/-- Whether one of some matchers accepts a type, each asked in turn until one does. -/
def someAccepts (s : Store) (type : Value) : List Matcher → Except Fault Bool
  | [] => .ok false
  | m :: ms => do
    if ← accepts s type m then .ok true else someAccepts s type ms

end

/-- Whether a raw matcher accepts a type. -/
def matchesType (s : Store) (v type : Value) : Except Fault Bool := do
  let m ← s.compile v
  s.accepts type m

/-- A matcher object for a text accepts that text and nothing else. -/
theorem objectAccepts_text (s : Store) (o : ObjectId) (t : String) (type : Value)
    (h : s.object o = .matcher .string (.text t)) :
    s.objectAccepts (.object o) type = .ok (type == .text t) := by
  simp [objectAccepts, valueAccepts, object?, h, equal_text]

end Store

/-! ## Matchers as objects -/

mutual

/-- The object for a matcher. -/
def writeMatcher : Matcher → Run Value
  | .equals t => Run.allocate (.matcher .string (.text t))
  | .search p => Run.allocate (.matcher .pattern (.pattern p))
  | .anyOf alternatives => do
    let items ← writeMatchers alternatives
    let target ← Run.allocateTuple items
    Run.allocate (.matcher .anyOf target)
  | .given m => pure (.object m)

/-- The objects for some matchers. -/
def writeMatchers : List Matcher → Run (List Value)
  | [] => pure []
  | m :: ms => do
    let v ← writeMatcher m
    let vs ← writeMatchers ms
    return v :: vs

end

/-- The compiled matcher of a value, as a value: a matcher that is compiled already is its own. -/
def compileMatcher (v : Value) : Run Value := do
  let m ← Run.check fun s => s.compile v
  writeMatcher m

end SyntaxTree
