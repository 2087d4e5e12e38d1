/-!
# Binary floating-point numbers

The finite numbers `± mantissa · 2 ^ exponent` with a mantissa below `2 ^ 53`, the two infinities
and the undefined number. A number has one representation: the mantissa is at least `2 ^ 52`, or
the exponent is the least one, `-1074`.

Everything is exact arithmetic on `Nat` and `Int`, so a conversion from decimal digits is one
rounded division (`Binary64.ofDecimal`).
-/

namespace Ramlify

/-- A binary floating-point number of 53 significant bits. -/
inductive Binary64 where
  /-- The number `± mantissa · 2 ^ exponent`. -/
  | finite (negative : Bool) (mantissa : Nat) (exponent : Int)
  /-- A number too large for the format. -/
  | infinite (negative : Bool)
  /-- The undefined number. -/
  | nan
  deriving DecidableEq, Repr, Inhabited

namespace Binary64

def minExponent : Int := -1074

/-- The greatest exponent of a finite number. -/
def maxExponent : Int := 971

def zero (negative : Bool) : Binary64 := .finite negative 0 minExponent

/-- Both zeros are zero. -/
def isZero : Binary64 → Bool
  | .finite _ 0 _ => true
  | _ => false

/-- The quotient rounded to the nearest whole number; a half goes to the even neighbour. -/
def divRound (num den : Nat) : Nat :=
  let quotient := num / den
  let twice := 2 * (num % den)
  if twice < den then quotient
  else if den < twice then quotient + 1
  else quotient + quotient % 2

/-- The quotient `num · 2 ^ shift / den` as a pair of whole numbers. -/
def shiftRatio (num den : Nat) (shift : Int) : Nat × Nat :=
  if 0 ≤ shift then (num * Nat.pow 2 shift.toNat, den) else (num, den * Nat.pow 2 (-shift).toNat)

/-- The greatest `k` with `2 ^ k ≤ num / den`, for positive `num` and `den`. -/
def log2Ratio (num den : Nat) : Int :=
  let guess : Int := (Nat.log2 num : Int) - Nat.log2 den
  let scaled := shiftRatio num den (-guess)
  if scaled.2 ≤ scaled.1 then guess else guess - 1

/-- The number nearest to `± num / den`; a half goes to the even mantissa. -/
def ofRatio (negative : Bool) (num den : Nat) : Binary64 :=
  if num = 0 then zero negative
  else
    let exponent := max (log2Ratio num den - 52) minExponent
    let scaled := shiftRatio num den (-exponent)
    let mantissa := divRound scaled.1 scaled.2
    let carried := mantissa == Nat.pow 2 53
    let mantissa := if carried then Nat.pow 2 52 else mantissa
    let exponent := if carried then exponent + 1 else exponent
    if maxExponent < exponent then .infinite negative else .finite negative mantissa exponent

/-- The number nearest to `± digits · 10 ^ exponent`. Exponents far outside the format are answered
without computing the power. -/
def ofDecimal (negative : Bool) (digits : Nat) (exponent : Int) : Binary64 :=
  let bits : Int := Nat.log2 digits
  if digits = 0 then zero negative
  else if 310 < exponent + bits * 3 / 10 then .infinite negative
  else if exponent + (bits + 1) * 31 / 100 + 1 < -326 then zero negative
  else if 0 ≤ exponent then ofRatio negative (digits * Nat.pow 10 exponent.toNat) 1
  else ofRatio negative digits (Nat.pow 10 (-exponent).toNat)

/-- The whole number that a floating-point number is, if it is one. -/
def toInt? : Binary64 → Option Int
  | .finite negative mantissa exponent =>
    let scaled := shiftRatio mantissa 1 exponent
    if scaled.1 % scaled.2 = 0 then
      let size : Int := (scaled.1 / scaled.2 : Nat)
      some (if negative then -size else size)
    else none
  | _ => none

end Binary64

end Ramlify
