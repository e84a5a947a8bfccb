/-!
# `Text.Classes` — sets of characters, and the smaller ones among them

Sets of characters are written as ranges of code points. A table lists the first and the last code point
of each range; membership is one pass over the list. White space and decimal digits are here; the longer
tables, of the characters of words and of those that are shown as they are, have modules of their own
(`Word`, `Printable`).

White space is that of the Unicode standard: the spaces, the line and paragraph separators, and the
control characters that end or indent lines, the four information separators among them. Decimal digits
are those of all scripts (Unicode 14, general category Nd).

The forms of a letter are the characters that stand for it when case does not matter. A letter of ASCII
or of the Latin letters below `0x100` has two forms, a fixed distance apart. Some of these letters have
further forms beyond, such as the long s or the sign of the kelvin; `letterFamilies` lists them.
-/

namespace SyntaxTree

/-- A set of characters: each pair is the first and the last code point of a range. -/
abbrev Ranges := List (Nat × Nat)

namespace Ranges

/-- Membership of a code point in one of the ranges. -/
def contains (table : Ranges) (code : Nat) : Bool :=
  table.any fun range => range.1 ≤ code && code ≤ range.2

theorem contains_eq_true {table : Ranges} {code : Nat} :
    table.contains code = true ↔ ∃ range ∈ table, range.1 ≤ code ∧ code ≤ range.2 := by
  simp [contains]

end Ranges

namespace Text

/-! ## White space -/

/-- All white space, ASCII included. -/
def blankRanges : Ranges :=
  [(0x9, 0xd), (0x1c, 0x20), (0x85, 0x85), (0xa0, 0xa0), (0x1680, 0x1680), (0x2000, 0x200a),
   (0x2028, 0x2029), (0x202f, 0x202f), (0x205f, 0x205f), (0x3000, 0x3000)]

/-- White space. -/
def isBlank (c : Char) : Bool :=
  blankRanges.contains c.toNat

/-- The white space of ASCII text is white space here. -/
theorem isBlank_of_isWhitespace {c : Char} (h : c.isWhitespace = true) : isBlank c = true := by
  simp only [Char.isWhitespace, Bool.or_eq_true, decide_eq_true_eq] at h
  rcases h with ((h | h) | h) | h <;> subst h <;> decide

/-! ## Decimal digits -/

/-- Each range holds the ten digits of one script, or of several scripts in a row. -/
def digitRanges : Ranges :=
  [(0x30, 0x39), (0x660, 0x669), (0x6f0, 0x6f9), (0x7c0, 0x7c9), (0x966, 0x96f), (0x9e6, 0x9ef),
   (0xa66, 0xa6f), (0xae6, 0xaef), (0xb66, 0xb6f), (0xbe6, 0xbef), (0xc66, 0xc6f),
   (0xce6, 0xcef), (0xd66, 0xd6f), (0xde6, 0xdef), (0xe50, 0xe59), (0xed0, 0xed9),
   (0xf20, 0xf29), (0x1040, 0x1049), (0x1090, 0x1099), (0x17e0, 0x17e9), (0x1810, 0x1819),
   (0x1946, 0x194f), (0x19d0, 0x19d9), (0x1a80, 0x1a89), (0x1a90, 0x1a99), (0x1b50, 0x1b59),
   (0x1bb0, 0x1bb9), (0x1c40, 0x1c49), (0x1c50, 0x1c59), (0xa620, 0xa629), (0xa8d0, 0xa8d9),
   (0xa900, 0xa909), (0xa9d0, 0xa9d9), (0xa9f0, 0xa9f9), (0xaa50, 0xaa59), (0xabf0, 0xabf9),
   (0xff10, 0xff19), (0x104a0, 0x104a9), (0x10d30, 0x10d39), (0x11066, 0x1106f),
   (0x110f0, 0x110f9), (0x11136, 0x1113f), (0x111d0, 0x111d9), (0x112f0, 0x112f9),
   (0x11450, 0x11459), (0x114d0, 0x114d9), (0x11650, 0x11659), (0x116c0, 0x116c9),
   (0x11730, 0x11739), (0x118e0, 0x118e9), (0x11950, 0x11959), (0x11c50, 0x11c59),
   (0x11d50, 0x11d59), (0x11da0, 0x11da9), (0x16a60, 0x16a69), (0x16ac0, 0x16ac9),
   (0x16b50, 0x16b59), (0x1d7ce, 0x1d7ff), (0x1e140, 0x1e149), (0x1e2f0, 0x1e2f9),
   (0x1e950, 0x1e959), (0x1fbf0, 0x1fbf9)]

/-- A decimal digit of any script. -/
def isDigit (c : Char) : Bool :=
  digitRanges.contains c.toNat

/-- The ASCII digits are among them. -/
theorem isDigit_of_isDigit {c : Char} (h : c.isDigit = true) : isDigit c = true := by
  simp only [Char.isDigit, Bool.and_eq_true, decide_eq_true_eq] at h
  exact Ranges.contains_eq_true.mpr ⟨(0x30, 0x39), by decide, h.1, h.2⟩

/-! ## Letters in either case -/

/-- The other case of a letter, for ASCII and the Latin letters below `0x100`. -/
def otherCase (c : Char) : Char :=
  let n := c.toNat
  let upper := (0x41 ≤ n && n ≤ 0x5a) || (0xc0 ≤ n && n ≤ 0xde && n != 0xd7)
  let lower := (0x61 ≤ n && n ≤ 0x7a) || (0xe0 ≤ n && n ≤ 0xfe && n != 0xf7)
  if upper then Char.ofNat (n + 0x20) else if lower then Char.ofNat (n - 0x20) else c

/-- All forms of the letters that have a form below `0x100` and one beyond. -/
def letterFamilies : List (List Char) :=
  [['I', 'i', '\u0130', '\u0131'], ['K', 'k', '\u212a'], ['S', 's', '\u017f'], ['\u00b5', '\u039c', '\u03bc'],
   ['\u00c5', '\u00e5', '\u212b'], ['\u00df', '\u1e9e'], ['\u00ff', '\u0178']]

/-- The forms of a character, itself among them. -/
def caseForms (c : Char) : List Char :=
  (letterFamilies.find? (c ∈ ·)).getD [c, otherCase c]

/-- Every character is one of its own forms. -/
theorem mem_caseForms (c : Char) : c ∈ caseForms c := by
  unfold caseForms
  cases h : letterFamilies.find? (c ∈ ·) with
  | none => simp
  | some family => simpa using List.find?_some h

end Text

end SyntaxTree
