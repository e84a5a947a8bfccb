/-!
# `Binary64.Basic` — binary floating-point numbers

The numbers with a fractional part that a node may carry. A finite one is `± mantissa · 2 ^ exponent`
with 53 bits of mantissa; where the exponent is as small as it may get, the mantissa may be shorter. So
each number but zero has one form, and zero has one for each sign.

`nearest` is the number nearest to a fraction; of two that are equally near it takes the one with the
even mantissa. Whatever is computed here is computed exactly first and rounded once.

What is not a number carries a mark. The mark counts for nothing but identity: it tells one such thing
from another, where a number is known by its value.
-/

namespace SyntaxTree

/-- A binary floating-point number, an infinity, or not a number. -/
inductive Binary64
  | nan (mark : Nat)
  | infinite (negative : Bool)
  | finite (negative : Bool) (mantissa : Nat) (exponent : Int)
deriving DecidableEq, Repr, Inhabited

namespace Binary64

/-- The exponent of the numbers next to zero. -/
def leastExponent : Int := -1074

/-- The exponent of the greatest numbers. -/
def greatestExponent : Int := 971

/-- The least mantissa of 53 bits. -/
def leastFull : Nat := 4503599627370496

/-- A power with a natural exponent: what a number is multiplied by when the exponent is not negative. -/
def scale (base : Nat) (e : Int) : Nat := Nat.pow base e.toNat

/-- Zero of either sign. -/
def zero (negative : Bool) : Binary64 := .finite negative 0 leastExponent

/-! ## Rounding -/

/-- A quotient rounded to the nearest natural number, a tie to the even one. -/
def roundDiv (num den : Nat) : Nat :=
  let q := num / den
  let r := num % den
  if den < 2 * r ∨ (2 * r = den ∧ q % 2 = 1) then q + 1 else q

/-- A fraction as a multiple of `2 ^ e`. -/
def inUnits (num den : Nat) (e : Int) : Nat × Nat := (num * scale 2 (-e), den * scale 2 e)

/-- The exponent for which a fraction that is not zero has 53 bits before the point, or the least one. -/
def exponentFor (num den : Nat) : Int :=
  let guess : Int := (num.log2 : Int) - den.log2 - 52
  let (n, d) := inUnits num den guess
  max leastExponent (if n / d < leastFull then guess - 1 else guess)

/-- The number nearest to `± num / den`. -/
def nearest (negative : Bool) (num den : Nat) : Binary64 :=
  if num = 0 then zero negative
  else
    let e := exponentFor num den
    let (n, d) := inUnits num den e
    let m := roundDiv n d
    let (m, e) := if m = 2 * leastFull then (leastFull, e + 1) else (m, e)
    if greatestExponent < e then .infinite negative else .finite negative m e

/-- An exact quotient is not rounded. -/
theorem roundDiv_mul_self (n : Nat) {d : Nat} (h : 0 < d) : roundDiv (n * d) d = n := by
  have hd : d ≠ 0 := Nat.pos_iff_ne_zero.mp h
  simp [roundDiv, Nat.mul_div_cancel _ h, hd.symm]

/-! ## Comparison and addition -/

/-- A magnitude with its sign. -/
def signed (negative : Bool) (magnitude : Nat) : Int := if negative then -magnitude else magnitude

/-- Zero of either sign. -/
def isZero : Binary64 → Bool
  | .finite _ 0 _ => true
  | _ => false

/-- Equality of numbers: the zeros are equal, and what is not a number equals nothing. -/
def equal (a b : Binary64) : Bool :=
  match a with
  | .nan _ => false
  | _ => a = b || (a.isZero && b.isZero)

/-- The integer that a number is, if it is one. -/
def toInt? : Binary64 → Option Int
  | .finite negative m e =>
    if m % scale 2 (-e) = 0 then some (signed negative (m * scale 2 e / scale 2 (-e))) else none
  | _ => none

/-- Whether the number is below an integer. -/
def ltInt : Binary64 → Int → Bool
  | .nan _, _ => false
  | .infinite negative, _ => negative
  | .finite negative m e, bound => signed negative m * scale 2 e < bound * scale 2 (-e)

/-- Whether the number is zero or above. -/
def nonneg : Binary64 → Bool
  | .nan _ => false
  | .infinite negative => !negative
  | .finite negative m _ => !negative || m = 0

/-- The sum of a number and an integer. -/
def addInt : Binary64 → Int → Binary64
  | .finite negative m e, i =>
    let total := signed negative m * scale 2 e + i * scale 2 (-e)
    nearest (total < 0) total.natAbs (scale 2 (-e))
  | x, _ => x

/-- What is not a number is not equal to itself. -/
theorem equal_self_iff (x : Binary64) : x.equal x = true ↔ ∀ mark, x ≠ .nan mark := by
  cases x <;> simp [equal]

end Binary64

end SyntaxTree
