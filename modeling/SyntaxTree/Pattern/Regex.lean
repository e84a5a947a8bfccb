import SyntaxTree.Text.Word

/-!
# `Pattern.Regex` — regular expressions and where they lead

An expression is run on a text as a map between sets of positions: from the positions where a match may
begin to those where it may end. Sequence is composition, choice is union, and a star adds positions
until nothing new appears. As only the existence of a match is asked for, no order among matches is
needed, and the run is total and polynomial in the length of the text.

Positions are marked in an array of one entry more than the text has characters.
-/

namespace SyntaxTree

/-- One item of a bracketed set of characters. -/
inductive CharItem
  | range (lo hi : Char)
  | digit
  | word
  | blank
deriving DecidableEq, Repr

/-- A regular expression. -/
inductive Regex
  /-- The empty text. -/
  | empty
  /-- Any character but a line feed. -/
  | any
  /-- One character in a set, or outside of it if `negated`. -/
  | oneOf (negated : Bool) (items : List CharItem)
  /-- The start of the text. -/
  | start
  /-- The end of the text, or the place before a line feed that ends it. -/
  | finish
  | seq (a b : Regex)
  | alt (a b : Regex)
  | star (a : Regex)
  /-- Exactly `n` times in a row. -/
  | times (a : Regex) (n : Nat)
deriving DecidableEq, Repr

namespace Regex

/-! ## Characters -/

/-- Membership of a character in an item of a set. -/
def holds (c : Char) : CharItem → Bool
  | .range lo hi => lo ≤ c && c ≤ hi
  | .digit => Text.isDigit c
  | .word => Text.isWord c
  | .blank => Text.isBlank c

/-- Membership in a set of items; with `fold`, any form of the character will do. -/
def inItems (fold : Bool) (items : List CharItem) (c : Char) : Bool :=
  items.any (holds c) || (fold && (Text.caseForms c).any fun form => items.any (holds form))

/-! ## Sets of positions -/

/-- The positions that are reached: one entry for each place between characters. -/
abbrev Marks := Array Bool

/-- Either set. -/
def union (a b : Marks) : Marks := Array.zipWith (· || ·) a b

/-- The positions one past a marked one whose character passes `test`. -/
def shift (text : Array Char) (test : Char → Bool) (marks : Marks) : Marks :=
  Array.ofFn (n := marks.size) fun i =>
    match i.val with
    | 0 => false
    | j + 1 => marks.getD j false && (text[j]?.elim false test)

/-- The marked positions that pass `test`. -/
def keep (test : Nat → Bool) (marks : Marks) : Marks :=
  marks.mapIdx fun i marked => marked && test i

/-- Adds what `next` leads to until nothing new appears, `rounds` times at most. -/
def saturate (next : Marks → Marks) : Nat → Marks → Marks
  | 0, marks => marks
  | rounds + 1, marks =>
    let grown := union marks (next marks)
    if grown = marks then marks else saturate next rounds grown

/-- Applies `next` a number of times. -/
def iterate (next : Marks → Marks) : Nat → Marks → Marks
  | 0, marks => marks
  | n + 1, marks => iterate next n (next marks)

/-- A position is at the end of the text, or before the line feed that ends it. -/
def atFinish (text : Array Char) (i : Nat) : Bool :=
  i == text.size || (i + 1 == text.size && text[i]? == some '\n')

/-- Where a match that begins at a marked position may end. -/
def reach (fold : Bool) (text : Array Char) : Regex → Marks → Marks
  | .empty, marks => marks
  | .any, marks => shift text (· != '\n') marks
  | .oneOf negated items, marks => shift text (fun c => inItems fold items c != negated) marks
  | .start, marks => keep (· == 0) marks
  | .finish, marks => keep (atFinish text) marks
  | .seq a b, marks => reach fold text b (reach fold text a marks)
  | .alt a b, marks => union (reach fold text a marks) (reach fold text b marks)
  | .star a, marks => saturate (reach fold text a) marks.size marks
  | .times a n, marks => iterate (reach fold text a) n marks

/-- Whether some part of the text matches. -/
def occursIn (r : Regex) (fold : Bool) (text : String) : Bool :=
  let chars := text.toList.toArray
  (r.reach fold chars (Array.replicate (chars.size + 1) true)).any id

/-- One particular character. -/
def char (c : Char) : Regex := .oneOf false [.range c c]

/-- Once or not at all. -/
def optional (a : Regex) : Regex := .alt a .empty

/-- Once or more. -/
def plus (a : Regex) : Regex := .seq a (.star a)

end Regex

end SyntaxTree
