import SyntaxTree.Binary64.Basic

/-!
# `Binary64.Shortest` — the fewest decimal digits that name a number

A number stands for all fractions that are rounded to it. Among these `shortest` picks a decimal one
with as few digits as possible, and of several the one nearest to the number. It tries grids of powers
of ten from the coarse to the fine: on each, only the two points next to the number can be meant.
-/

namespace SyntaxTree.Binary64

/-- Whether `digits · 10 ^ place` is rounded to `m · 2 ^ e`. The fractions that are form an interval
from halfway to the number below up to halfway to the number above, with its ends if `m` is even; below
a power of two the numbers lie twice as close. -/
def readsBack (m : Nat) (e : Int) (digits : Nat) (place : Int) : Bool :=
  let low := if m = leastFull ∧ leastExponent < e then 4 * m - 1 else 4 * m - 2
  let high := 4 * m + 2
  let point := digits * scale 10 place * scale 2 (2 - e)
  let unit := scale 10 (-place) * scale 2 (e - 2)
  if m % 2 = 0 then low * unit ≤ point && point ≤ high * unit
  else low * unit < point && point < high * unit

/-- `m · 2 ^ e` as a fraction of `10 ^ place`. -/
def inPlaces (m : Nat) (e place : Int) : Nat × Nat :=
  (m * scale 2 e * scale 10 (-place), scale 2 (-e) * scale 10 place)

/-- The point on the grid of `10 ^ place` that names the number, if one does: of two the nearer, of two
that are equally near the even one. -/
def onGrid? (m : Nat) (e place : Int) : Option Nat :=
  let (num, den) := inPlaces m e place
  let below := num / den
  let nearer := roundDiv num den
  if readsBack m e nearer place then some nearer
  else if readsBack m e below place then some below
  else if readsBack m e (below + 1) place then some (below + 1)
  else none

/-- The number of digits before the point, negative for the zeros that follow it. -/
def magnitude (m : Nat) (e : Int) : Int :=
  let guess := ((m.log2 : Int) + e) * 30103 / 100000 + 1
  let (num, den) := inPlaces m e guess
  if num < den then guess else guess + 1

/-- Tries ever finer grids; the exact value if none of them has a point that names the number. -/
def search (m : Nat) (e : Int) : Nat → Int → Nat × Int
  | 0, _ => (m * scale 2 e * scale 5 (-e), min e 0)
  | tries + 1, place =>
    match onGrid? m e place with
    | some digits => (digits, place)
    | none => search m e tries (place - 1)

/-- Moves up to `fuel` trailing zeros from the digits to the place. -/
def stripZeros : Nat → Nat → Int → Nat × Int
  | 0, digits, place => (digits, place)
  | fuel + 1, digits, place =>
    if digits % 10 = 0 then stripZeros fuel (digits / 10) (place + 1) else (digits, place)

/-- The decimal digits that name `m · 2 ^ e`, and the place of the last one. -/
def shortest (m : Nat) (e : Int) : Nat × Int :=
  if m = 0 then (0, 0)
  else
    let (digits, place) := search m e 17 (magnitude m e - 1)
    stripZeros digits.log2 digits place

end SyntaxTree.Binary64
