import SyntaxTree.Node.Call

/-!
# `Brace.Build` — brace patterns and their trees

A pattern such as `a{b,c}d` is a sequence of items: characters, and groups of items between braces.
`render` writes items as a text. `tokenType` is what a reader takes a single character for.

The pattern is read one character at a time with a stack of open groups, the innermost on top. Every
character becomes a leaf; a brace that opens starts a new group below the top, and a brace that closes
ends the group on top. The root stands at the bottom of the stack like a group, so one brace too many
takes it off, and the character after that has nowhere to go.

A tracker goes along with the reader. Its wrapper is taken before a character, the tracker consumes the
character, and the leaf is made with the wrapper for its position.
-/

namespace SyntaxTree.Brace

open Store

/-! ## Patterns -/

/-- The character that opens a group. -/
def opening : Char := '\x7b'

/-- The character that closes a group. -/
def closing : Char := '\x7d'

/-- A part of a brace pattern. -/
inductive Item
  | char (c : Char)
  | group (items : List Item)

mutual

/-- An item as text. -/
def Item.render : Item → List Char
  | .char c => [c]
  | .group items => opening :: renderAll items ++ [closing]

/-- Items as text. -/
def renderAll : List Item → List Char
  | [] => []
  | item :: items => item.render ++ renderAll items

end

/-- The type of the node for a character. -/
def tokenType (c : Char) : String :=
  if c = opening then "brace.open"
  else if c = closing then "brace.close"
  else if c = ',' then "comma"
  else "text"

/-! ## Reading -/

/-- What the reader keeps between characters. -/
structure Reader where
  /-- The open groups, the innermost first. -/
  stack : List NodeId
  tracker : ObjectId

/-- The name that spans give as their source. -/
def sourceName : String := "<pattern>"

/-- A new node that makes its own scope. -/
def newGroup (type : String) : Run NodeId := do
  let fields ← Run.allocate (.map [(.text "type", .text type), (.text "is_scope", .bool true)])
  create .node { Construction.empty with value := fields }

/-- A new leaf for a character, with a wrapper for its position. -/
def newLeaf (c : Char) (position : Value) : Run NodeId :=
  create .node
    { Construction.empty with
      value := .text (String.singleton c), type := .text (tokenType c), position }

/-- Adds a leaf for a character to a node. -/
def pushLeaf (parent : NodeId) (c : Char) (position : Value) : Run Unit := do
  let leaf ← newLeaf c position
  let _ ← push parent (.node leaf)

/-- Puts a character that was consumed where it belongs; the answer is the stack behind it. -/
def place (stack : List NodeId) (c : Char) (position : Value) : Run (List NodeId) := do
  if c = opening then
    let group ← newGroup "brace"
    match stack with
    | [] => throw (.indexOutOfRange "list")
    | top :: below =>
      let _ ← push top (.node group)
      pushLeaf group c position
      return group :: top :: below
  else
    match stack with
    | [] => throw (if c = closing then .popFromEmpty else .indexOutOfRange "list")
    | top :: below =>
      pushLeaf top c position
      return if c = closing then below else top :: below

/-- Reads one character. -/
def step (reader : Reader) (c : Char) : Run Reader := do
  let position ← capture reader.tracker
  advance reader.tracker (.text (String.singleton c))
  let stack ← place reader.stack c position
  return { reader with stack }

/-- Reads characters from left to right. -/
def readAll (reader : Reader) : List Char → Run Reader
  | [] => pure reader
  | c :: cs => do
    let reader ← step reader c
    readAll reader cs

/-- Builds the tree of a pattern; the answer is its root. -/
def build (pattern : String) : Run NodeId := do
  let tracker ← startTracker (.text sourceName)
  let root ← newGroup "root"
  let _ ← readAll ⟨[root], tracker⟩ pattern.toList
  return root

end SyntaxTree.Brace
