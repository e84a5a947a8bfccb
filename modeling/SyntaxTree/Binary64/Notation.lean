import SyntaxTree.Binary64.Shortest

/-!
# `Binary64.Notation` — numbers as they are written

A number is written with the fewest digits that name it. The written form is positional from `0.0001`
up to sixteen digits before the point, with at least one digit on either side of the point; outside of
that range it is scientific, with a sign and at least two digits of exponent.
-/

namespace SyntaxTree.Binary64

/-! ## Reading -/

/-- The digits `cs` as a number, if all of them are digits and there is one. -/
def digits? (cs : List Char) : Option Nat :=
  if cs.isEmpty || !cs.all Char.isDigit then none
  else some (cs.foldl (fun n c => n * 10 + (c.toNat - '0'.toNat)) 0)

/-- An optionally signed run of digits. -/
def signedDigits? : List Char → Option Int
  | '-' :: cs => (digits? cs).map fun n => -(n : Int)
  | '+' :: cs => (digits? cs).map Int.ofNat
  | cs => (digits? cs).map Int.ofNat

/-- The number nearest to `± digits · 10 ^ place`. Four hundred places are beyond all numbers. -/
def ofDecimal (negative : Bool) (digits : Nat) (place : Int) : Binary64 :=
  let height : Int := (Nat.toDigits 10 digits).length + place
  if digits = 0 ∨ height < -400 then zero negative
  else if 400 < height then .infinite negative
  else nearest negative (digits * scale 10 place) (scale 10 (-place))

/-- Reads the part of a finite number that follows the sign. -/
def unsigned? (negative : Bool) (cs : List Char) : Option Binary64 :=
  let mantissa := cs.takeWhile fun c => c != 'e' && c != 'E'
  let whole := mantissa.takeWhile (· != '.')
  let fraction := (mantissa.dropWhile (· != '.')).drop 1
  let exponent? := match cs.drop mantissa.length with
    | [] => some 0
    | _ :: rest => signedDigits? rest
  match digits? (whole ++ fraction), exponent? with
  | some digits, some exponent => some (ofDecimal negative digits (exponent - fraction.length))
  | _, _ => none

/-- Reads a written number: `inf`, or a decimal fraction with an optional exponent, with an optional
sign; `nan` gets the mark `mark`. -/
def ofText? (mark : Nat) (text : String) : Option Binary64 :=
  match text.toList with
  | ['n', 'a', 'n'] => some (.nan mark)
  | ['i', 'n', 'f'] => some (.infinite false)
  | ['-', 'i', 'n', 'f'] => some (.infinite true)
  | '-' :: cs => unsigned? true cs
  | cs => unsigned? false cs

/-! ## Writing -/

/-- Positional notation of `ds · 10 ^ place`: at least one digit on either side of the point. -/
def positional (ds : List Char) (place : Int) : List Char :=
  let point : Int := ds.length + place
  if point ≤ 0 then '0' :: '.' :: List.replicate (-point).toNat '0' ++ ds
  else if 0 ≤ place then ds ++ List.replicate place.toNat '0' ++ ['.', '0']
  else ds.take point.toNat ++ '.' :: ds.drop point.toNat

/-- The exponent of scientific notation: signed, two digits or more. -/
def exponentText (e : Int) : List Char :=
  let ds := Nat.toDigits 10 e.natAbs
  (if e < 0 then '-' else '+') :: (if ds.length < 2 then '0' :: ds else ds)

/-- Scientific notation of `ds · 10 ^ place`, one digit before the point. -/
def scientific (ds : List Char) (place : Int) : List Char :=
  let mantissa := match ds with
    | d :: rest@(_ :: _) => d :: '.' :: rest
    | short => short
  mantissa ++ 'e' :: exponentText (ds.length + place - 1)

/-- The written form of a number. -/
def text : Binary64 → String
  | .nan _ => "nan"
  | .infinite negative => if negative then "-inf" else "inf"
  | .finite negative m e =>
    let (digits, place) := shortest m e
    let ds := Nat.toDigits 10 digits
    let leading : Int := ds.length + place - 1
    let body := if -4 ≤ leading ∧ leading < 16 then positional ds place else scientific ds place
    String.ofList (if negative then '-' :: body else body)

end SyntaxTree.Binary64
