/-!
# `Cursor` — line and column in consumed text

A cursor says where in a text the reader stands; both counts start at one. Text is consumed in chunks
of any size: a line feed starts a new line, every other character is one column.

`advance` moves over a whole chunk at once, by counting its lines and what follows the last of them;
`walk` moves over one character at a time. `locate` is the place reached from the start of the text.
-/

namespace SyntaxTree

/-- A place in a text. Both counts may be set to any integer. -/
structure Cursor where
  line : Int
  column : Int
deriving DecidableEq, Repr, Inhabited

namespace Cursor

/-- The place of the first character. -/
def start : Cursor := ⟨1, 1⟩

/-- The number of line feeds. -/
def lineFeeds (cs : List Char) : Nat := cs.count '\n'

/-- What follows the last line feed: all of `cs` if there is none. -/
def lastLine (cs : List Char) : List Char := (cs.reverse.takeWhile (· != '\n')).reverse

/-- Moves past a chunk of text. -/
def advanceChars (c : Cursor) (cs : List Char) : Cursor :=
  if lineFeeds cs = 0 then { c with column := c.column + cs.length }
  else ⟨c.line + lineFeeds cs, 1 + (lastLine cs).length⟩

/-- Moves past a chunk of text. -/
def advance (c : Cursor) (text : String) : Cursor := c.advanceChars text.toList

/-- Moves past one character. -/
def step (c : Cursor) (ch : Char) : Cursor :=
  if ch = '\n' then ⟨c.line + 1, 1⟩ else { c with column := c.column + 1 }

/-- Moves past a chunk one character after the other. -/
def walk (c : Cursor) (cs : List Char) : Cursor := cs.foldl step c

/-- The place reached when `text` has been consumed from its start. -/
def locate (text : String) : Cursor := start.advance text

@[simp] theorem advanceChars_nil (c : Cursor) : c.advanceChars [] = c := by
  simp [advanceChars, lineFeeds]

@[simp] theorem walk_nil (c : Cursor) : c.walk [] = c := rfl

@[simp] theorem walk_cons (c : Cursor) (ch : Char) (cs : List Char) :
    c.walk (ch :: cs) = (c.step ch).walk cs := rfl

end Cursor

end SyntaxTree
