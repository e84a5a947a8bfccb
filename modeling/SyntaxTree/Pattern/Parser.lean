import SyntaxTree.Pattern.Regex
import SyntaxTree.Text.Quoted

/-!
# `Pattern.Parser` — the written form of regular expressions

An expression is a choice of sequences of items: characters, `.`, `^`, `$`, sets in brackets, groups in
parentheses and the classes `\d`, `\w`, `\s`, each with an optional `*`, `+`, `?` or `{n}`. A backslash
before `n`, `t` or `r` writes the control character, and takes any other character literally.

No more than this part of the language of expressions is covered. Left out are the negated classes `\D`,
`\W` and `\S`, the places `\b`, `\B`, `\A` and `\Z`, counts with two bounds, lazy and possessive
quantifiers, everything that begins with `(?`, references back to a group, characters by their code, and
expressions on byte strings. Of the flags only the one that ignores case is known.

Every step consumes a character, so the length of the text bounds the recursion.

A compiled pattern (`Pattern`) is an expression as it was written, with the choice to ignore case.
Patterns are equal if they are written alike.
-/

namespace SyntaxTree

namespace Regex

/-- What a backslash and the character after it stand for. -/
def escaped (c : Char) : CharItem :=
  if c = 'd' then .digit
  else if c = 'w' then .word
  else if c = 's' then .blank
  else if c = 'n' then .range '\n' '\n'
  else if c = 't' then .range '\t' '\t'
  else if c = 'r' then .range '\r' '\r'
  else .range c c

/-- Reads the first character or class of a set. -/
def firstItem (c : Char) : List Char → CharItem × List Char
  | [] => (.range c c, [])
  | e :: cs => if c = '\\' then (escaped e, cs) else (.range c c, e :: cs)

/-- Widens a character to the range that a hyphen and another character make of it; a hyphen before the
closing bracket makes none. -/
def widened (item : CharItem) (cs : List Char) : CharItem × List Char :=
  match item, cs with
  | .range lo _, '-' :: '\\' :: hi :: rest => (.range lo hi, rest)
  | .range lo _, '-' :: hi :: rest => if hi = ']' then (item, cs) else (.range lo hi, rest)
  | _, _ => (item, cs)

/-- Reads the items of a set up to its closing bracket; a bracket that comes first stands for itself. -/
def items? : Nat → Bool → List Char → Option (List CharItem × List Char)
  | 0, _, _ => none
  | _ + 1, _, [] => none
  | fuel + 1, first, c :: cs =>
    if c = ']' && !first then some ([], cs)
    else
      let head := firstItem c cs
      let (item, rest) := widened head.1 head.2
      (items? fuel false rest).map fun r => (item :: r.1, r.2)

/-- Reads the count of `{n}`, after the opening brace. -/
def count? (cs : List Char) : Option (Nat × List Char) :=
  let ds := cs.takeWhile Char.isDigit
  match ds, cs.drop ds.length with
  | _ :: _, '}' :: rest => some (ds.foldl (fun n c => n * 10 + (c.toNat - '0'.toNat)) 0, rest)
  | _, _ => none

/-- Applies the quantifier that follows an item, if one does. -/
def quantified (item : Regex) : List Char → Regex × List Char
  | '*' :: cs => (.star item, cs)
  | '+' :: cs => (plus item, cs)
  | '?' :: cs => (optional item, cs)
  | '{' :: cs =>
    match count? cs with
    | some (n, rest) => (.times item n, rest)
    | none => (item, '{' :: cs)
  | cs => (item, cs)

mutual

/-- Reads a choice of sequences, up to the end or an unmatched closing parenthesis. -/
def choice? : Nat → List Char → Option (Regex × List Char)
  | 0, _ => none
  | fuel + 1, cs =>
    match sequence? fuel cs with
    | some (left, '|' :: rest) => (choice? fuel rest).map fun r => (.alt left r.1, r.2)
    | other => other

/-- Reads a sequence of items with their quantifiers. -/
def sequence? : Nat → List Char → Option (Regex × List Char)
  | 0, _ => none
  | _ + 1, [] => some (.empty, [])
  | fuel + 1, c :: cs =>
    if c = '|' || c = ')' then some (.empty, c :: cs)
    else
      match item? fuel c cs with
      | none => none
      | some (item, rest) =>
        let (item, rest) := quantified item rest
        (sequence? fuel rest).map fun r => (.seq item r.1, r.2)

/-- Reads one item that begins with `c`. -/
def item? : Nat → Char → List Char → Option (Regex × List Char)
  | 0, _, _ => none
  | fuel + 1, c, cs =>
    if c = '.' then some (.any, cs)
    else if c = '^' then some (.start, cs)
    else if c = '$' then some (.finish, cs)
    else if c = '(' then
      match choice? fuel cs with
      | some (inner, ')' :: rest) => some (inner, rest)
      | _ => none
    else if c = '[' then
      match cs with
      | '^' :: cs => (items? (cs.length + 1) true cs).map fun r => (.oneOf true r.1, r.2)
      | cs => (items? (cs.length + 1) true cs).map fun r => (.oneOf false r.1, r.2)
    else if c = '\\' then
      match cs with
      | [] => none
      | e :: cs => some (.oneOf false [escaped e], cs)
    else some (char c, cs)

end

/-- The expression that `source` writes, if it writes one. -/
def parse? (source : String) : Option Regex :=
  let cs := source.toList
  match choice? (3 * cs.length + 3) cs with
  | some (r, []) => some r
  | _ => none

end Regex

/-! ## Compiled patterns -/

/-- A regular expression in its written form. -/
structure Pattern where
  source : String
  ignoreCase : Bool
deriving DecidableEq, Repr, Inhabited

namespace Pattern

/-- Whether some part of the text matches. A source that writes no expression matches nothing. -/
def occursIn (p : Pattern) (text : String) : Bool :=
  match Regex.parse? p.source with
  | some r => r.occursIn p.ignoreCase text
  | none => false

/-- A pattern as it is shown; only the first 200 characters of its quoted source are. -/
def display (p : Pattern) : String :=
  "re.compile(" ++ String.ofList ((Text.quote p.source).toList.take 200) ++
    (if p.ignoreCase then ", re.IGNORECASE)" else ")")

end Pattern

end SyntaxTree
