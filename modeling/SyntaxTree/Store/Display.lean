import SyntaxTree.Store.Run

/-!
# `Store.Display` — values as they are shown

The text that stands for a value in messages, debug records and printed lines. A node shows its class,
its type, its value if it has one, and the number of its children if it has any. A collection or record
that is met again inside itself is shown as dots; a node, tracker or operation that is met again inside
itself without one of these in between has no finite text.
-/

namespace SyntaxTree.Store

/-- Parts with a comma and a space between them. -/
def listed (parts : List String) : String := String.intercalate ", " parts

/-- The opening brace. -/
def openBrace : String := "\x7b"

/-- The closing brace. -/
def closeBrace : String := "\x7d"

/-- A collection of shown items. -/
def displayItems : Shape → List String → String
  | .list, parts => "[" ++ listed parts ++ "]"
  | .tuple, [part] => "(" ++ part ++ ",)"
  | .tuple, parts => "(" ++ listed parts ++ ")"
  | .set, [] => "set()"
  | .set, parts => openBrace ++ listed parts ++ closeBrace
  | .frozenSet, [] => "frozenset()"
  | .frozenSet, parts => "frozenset(" ++ openBrace ++ listed parts ++ closeBrace ++ ")"

/-- What stands for a thing inside of itself. -/
def displayAgain : Object → String
  | .collection .list _ => "[...]"
  | .collection .tuple _ => "(...)"
  | .collection .set _ => "set(...)"
  | .collection .frozenSet _ => "frozenset(...)"
  | .map _ => openBrace ++ "..." ++ closeBrace
  | _ => "..."

/-- A kind of matcher as it is shown. -/
def displayKind (k : MatcherKind) : String :=
  "<MatcherKind." ++ k.name ++ ": " ++ toString k.number ++ ">"

/-- A scalar as it is shown. -/
def displayScalar : Value → String
  | .null => "None"
  | .bool b => if b then "True" else "False"
  | .int i => toString i
  | .float x => x.text
  | .text t => Text.quote t
  | .bytes bs => Text.quoteBytes bs
  | .pattern p => p.display
  | .kind k => displayKind k
  | .cls name => "<class " ++ Fault.inQuotes name ++ ">"
  | .node _ | .object _ => ""

/-- Shows a list of values. -/
def displayAll (shown : Value → Except Fault String) : List Value → Except Fault (List String)
  | [] => .ok []
  | v :: vs => do
    let part ← shown v
    let parts ← displayAll shown vs
    .ok (part :: parts)

/-- Shows the entries of a map. -/
def displayEntries (shown : Value → Except Fault String) : Entries Value → Except Fault (List String)
  | [] => .ok []
  | (k, v) :: es => do
    let key ← shown k.value
    let part ← shown v
    let parts ← displayEntries shown es
    .ok ((key ++ ": " ++ part) :: parts)

/-- Shows a value as the end user reads it: a text is shown without quotes. -/
def displayPlain (shown : Value → Except Fault String) : Value → Except Fault String
  | .text t => .ok t
  | .kind k => .ok ("MatcherKind." ++ k.name)
  | v => shown v

/-- The name of the class that an operation taken as a value belongs to. -/
def methodClass (s : Store) (owner : Value) : String :=
  match owner with
  | .node _ => NodeClass.node.name
  | v => s.kindName v

/-- Shows an object, given how its parts are shown. -/
def displayObject (s : Store) (shown : Value → Except Fault String) : Object → Except Fault String
  | .collection shape items => displayItems shape <$> displayAll shown items
  | .map es => do
    let parts ← displayEntries shown es
    .ok (openBrace ++ listed parts ++ closeBrace)
  | .location line column => do
    let line ← shown line
    let column ← shown column
    .ok ("Location(line=" ++ line ++ ", column=" ++ column ++ ")")
  | .position start finish source => do
    let start ← shown start
    let finish ← shown finish
    let source ← shown source
    .ok ("Position(start=" ++ start ++ ", end=" ++ finish ++ ", source=" ++ source ++ ")")
  | .matcher kind target => do
    let target ← shown target
    .ok ("TypeMatcher(kind=" ++ displayKind kind ++ ", target=" ++ target ++ ")")
  | .tracker source line column => do
    let source ← shown source
    let line ← displayPlain shown line
    let column ← displayPlain shown column
    .ok ("PositionTracker(" ++ source ++ ", line=" ++ line ++ ", column=" ++ column ++ ")")
  | .method owner name => do
    let shownOwner ← shown owner
    .ok ("<bound method " ++ s.methodClass owner ++ "." ++ name ++ " of " ++ shownOwner ++ ">")
  | .wrapper .. => .ok "<wrapper>"
  | .foreign cls _ _ => .ok ("<" ++ cls ++ " object>")
  | .plain => .ok "<object>"

/-- Shows a node, given how its type and value are shown. -/
def displayNode (shown : Value → Except Fault String) (r : NodeRecord) : Except Fault String := do
  let type ← shown r.type
  let value ← if r.value = .null then .ok "" else (", value=" ++ ·) <$> shown r.value
  let count := (r.nodes.getD []).length
  let nodes := if count = 0 then "" else ", nodes=" ++ toString count
  .ok (r.cls.name ++ "(type=" ++ type ++ value ++ nodes ++ ")")

/-- Whether a thing inside of itself is shown as dots. -/
def isGuarded : Object → Bool
  | .tracker .. | .method .. => false
  | _ => true

/-- Shows a value inside of the guarded objects `within`, and of the nodes and trackers `entered` since
the innermost of these, down to a depth. -/
def displayWithin (s : Store) : Nat → List ObjectId → List Value → Value → Except Fault String
  | 0, _, _, _ => .error .endless
  | fuel + 1, within, entered, v =>
    match v with
    | .node n =>
      if v ∈ entered then .error .endless
      else displayNode (displayWithin s fuel within (v :: entered)) (s.node n)
    | .object o =>
      if isGuarded (s.object o) then
        if o ∈ within then .ok (displayAgain (s.object o))
        else displayObject s (displayWithin s fuel (o :: within) []) (s.object o)
      else
        if v ∈ entered then .error .endless
        else displayObject s (displayWithin s fuel within (v :: entered)) (s.object o)
    | v => .ok (displayScalar v)

/-- A value as it is shown. No guarded object is entered inside of itself, and nothing else is entered
twice between two of them, which bounds the depth. -/
def display (s : Store) (v : Value) : Except Fault String :=
  displayWithin s ((s.objects.size + 1) * (s.nodes.size + s.objects.size + 2) + 1) [] [] v

/-- The text of a value in a debug record. A value without a finite text is a fault if somebody reads the
log, and otherwise is shown as dots. -/
def shownInRecord (v : Value) : Run String := fun s =>
  match s.display v with
  | .ok text => .ok text s
  | .error e => if s.logIsRead then .error e s else .ok "..." s

end SyntaxTree.Store
