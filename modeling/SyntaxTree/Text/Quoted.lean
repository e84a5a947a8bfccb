import SyntaxTree.Text.Printable

/-!
# `Text.Quoted` — text and bytes between quotes

How a string is shown inside messages and debug records. The mark is the single quote unless the text
holds a single quote and no double quote. Inside, the mark and the backslash are escaped, line feed,
carriage return and tab have names, and every other character that is not printable is written by its
code point: two hexadecimal digits below `0x100`, four below `0x10000`, eight beyond.
-/

namespace SyntaxTree.Text

/-- The single quote. -/
def singleQuote : Char := Char.ofNat 0x27

/-- The double quote. -/
def doubleQuote : Char := Char.ofNat 0x22

/-- The last `width` hexadecimal digits of `n`, the most significant first. -/
def hexDigits : Nat → Nat → List Char
  | 0, _ => []
  | width + 1, n => hexDigits width (n / 16) ++ [Nat.digitChar (n % 16)]

@[simp] theorem length_hexDigits (width n : Nat) : (hexDigits width n).length = width := by
  induction width generalizing n with
  | zero => rfl
  | succ width ih => simp [hexDigits, ih]

/-- A code point as an escape. -/
def escapeCode (code : Nat) : List Char :=
  if code < 0x100 then '\\' :: 'x' :: hexDigits 2 code
  else if code < 0x10000 then '\\' :: 'u' :: hexDigits 4 code
  else '\\' :: 'U' :: hexDigits 8 code

/-- The quote that `text` is put between: double if it saves an escape, single otherwise. -/
def quoteFor (text : List Char) : Char :=
  if text.contains singleQuote && !text.contains doubleQuote then doubleQuote else singleQuote

/-- One character inside quotes, where `shown` tells which characters stand for themselves. -/
def escapeChar (shown : Char → Bool) (mark c : Char) : List Char :=
  if c = mark ∨ c = '\\' then ['\\', c]
  else if c = '\n' then ['\\', 'n']
  else if c = '\r' then ['\\', 'r']
  else if c = '\t' then ['\\', 't']
  else if shown c then [c]
  else escapeCode c.toNat

/-- Text between its quotes. -/
def quoteBy (shown : Char → Bool) (text : List Char) : List Char :=
  let mark := quoteFor text
  mark :: text.flatMap (escapeChar shown mark) ++ [mark]

/-- A string as it is shown. -/
def quote (text : String) : String :=
  String.ofList (quoteBy isPrintable text.toList)

/-- A byte string as it is shown: only printable ASCII stands for itself. -/
def quoteBytes (bytes : List UInt8) : String :=
  let shown := fun c : Char => 0x20 ≤ c.toNat && c.toNat ≤ 0x7e
  String.ofList ('b' :: quoteBy shown (bytes.map fun b => Char.ofNat b.toNat))

end SyntaxTree.Text
