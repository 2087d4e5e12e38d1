import Ramlify.Number.Binary64

/-!
# Shortest decimals

The decimal text of a floating-point number has the fewest digits that read back as the same
number, and of those the digits nearest to it. `Decimal.shortest` finds them on the grids
`10 ^ k`, `10 ^ (k - 1)`, … below the number: on each grid only the two neighbours of the number can
read back as it.

`FloatStyle` holds what differs between the formats that write such a number.
-/

namespace Ramlify

/-- The positive number `digits · 10 ^ exponent`. -/
structure Decimal where
  digits : Nat
  exponent : Int
  deriving DecidableEq, Repr

namespace Decimal

/-- The whole part of `num / den / 10 ^ place`. -/
def gridFloor (num den : Nat) (place : Int) : Nat :=
  if 0 ≤ place then num / (den * Nat.pow 10 place.toNat) else num * Nat.pow 10 (-place).toNat / den

/-- Compares `point · 10 ^ place` with `num / den`. -/
def compareGrid (point : Nat) (place : Int) (num den : Nat) : Ordering :=
  if 0 ≤ place then compare (point * Nat.pow 10 place.toNat * den) num
  else compare (point * den) (num * Nat.pow 10 (-place).toNat)

/-- Searches the least `j` from `start` with `1 ≤ num / den · 10 ^ j`. -/
def leadingZeros : Nat → Nat → Nat → Nat → Nat
  | 0, start, _, _ => start
  | fuel + 1, start, num, den =>
    if den ≤ num * Nat.pow 10 start then start else leadingZeros fuel (start + 1) num den

/-- The exponent of the leading decimal digit of the positive number `num / den`. -/
def leadingPlace (num den : Nat) : Int :=
  if den ≤ num then ((Nat.toDigits 10 (num / den)).length : Int) - 1
  else
    Int.neg (leadingZeros 400 ((Nat.log2 den - Nat.log2 num - 1) * 3 / 10) num den)

def trim : Nat → Decimal → Decimal
  | 0, d => d
  | fuel + 1, d =>
    if d.digits ≠ 0 ∧ d.digits % 10 = 0 then trim fuel ⟨d.digits / 10, d.exponent + 1⟩ else d

/-- The reals that round to one floating-point number, as bounds over a common denominator. The
ends belong to it when the mantissa is even. -/
structure Interval where
  low : Nat
  value : Nat
  high : Nat
  den : Nat
  closed : Bool

/-- The interval of `mantissa · 2 ^ exponent`. Below a power of two the numbers lie closer, so the
lower half is narrower there. -/
def Interval.of (mantissa : Nat) (exponent : Int) : Interval :=
  let narrow := mantissa == Nat.pow 2 52 && decide (Binary64.minExponent < exponent)
  let unit := Binary64.shiftRatio 1 1 (exponent - 2)
  { low := (4 * mantissa - if narrow then 1 else 2) * unit.1
    value := 4 * mantissa * unit.1
    high := (4 * mantissa + 2) * unit.1
    den := unit.2
    closed := mantissa % 2 == 0 }

/-- Whether `point · 10 ^ place` rounds to the number. -/
def Interval.holds (i : Interval) (point : Nat) (place : Int) : Bool :=
  let fromLow := compareGrid point place i.low i.den
  let toHigh := compareGrid point place i.high i.den
  (fromLow == .gt || (i.closed && fromLow == .eq)) &&
    (toHigh == .lt || (i.closed && toHigh == .eq))

/-- Of two neighbouring points of a grid, the one nearer to the number; a half goes to the even
point. -/
def Interval.nearer (i : Interval) (lower : Nat) (place : Int) : Nat :=
  match compareGrid (2 * lower + 1) place (2 * i.value) i.den with
  | .lt => lower + 1
  | .gt => lower
  | .eq => lower + lower % 2

/-- The point of the grid `10 ^ place` that stands for the number, if one rounds to it. -/
def Interval.pick? (i : Interval) (place : Int) : Option Nat :=
  let lower := gridFloor i.value i.den place
  match i.holds lower place, i.holds (lower + 1) place with
  | true, true => some (i.nearer lower place)
  | true, false => some lower
  | false, true => some (lower + 1)
  | false, false => none

/-- Tries the grids from `place` downwards. -/
def Interval.search (i : Interval) : Nat → Int → Decimal
  | 0, place => ⟨gridFloor i.value i.den place, place⟩
  | fuel + 1, place =>
    match i.pick? place with
    | some point => ⟨point, place⟩
    | none => i.search fuel (place - 1)

/-- The shortest decimal that reads back as `mantissa · 2 ^ exponent`, for a positive mantissa.
Seventeen digits always do. -/
def shortest (mantissa : Nat) (exponent : Int) : Decimal :=
  let interval := Interval.of mantissa exponent
  trim 20 (interval.search 17 (leadingPlace interval.value interval.den))

end Decimal

/-- How a format writes floating-point numbers. -/
structure FloatStyle where
  /-- A number whose leading digit stands below `10 ^ least` has an exponent. -/
  least : Int
  /-- A number whose leading digit stands at `10 ^ bound` or above has an exponent. -/
  bound : Int
  /-- A mantissa of one digit is followed by this before the exponent. -/
  afterLoneDigit : String
  /-- The text of positive infinity. -/
  infinity : String
  /-- The text of negative infinity. -/
  negativeInfinity : String
  /-- The text of the undefined number. -/
  undefined : String

namespace FloatStyle

/-- At least two digits, as exponents have. -/
def twoDigits (n : Nat) : String := if n < 10 then "0" ++ toString n else toString n

/-- A decimal whose digits are all before the point, around it, or all after it. -/
def positional (digits : List Char) (exponent : Int) : String :=
  let point := (digits.length : Int) + exponent
  if 0 ≤ exponent then
    String.ofList (digits ++ List.replicate exponent.toNat '0') ++ ".0"
  else if 0 < point then
    String.ofList (digits.take point.toNat) ++ "." ++ String.ofList (digits.drop point.toNat)
  else
    "0." ++ String.ofList (List.replicate (-point).toNat '0' ++ digits)

/-- A decimal with one digit before the point and a signed exponent. -/
def scientific (style : FloatStyle) (digits : List Char) (exponent : Int) : String :=
  let power := (digits.length : Int) + exponent - 1
  let tail := match digits with
    | [] => style.afterLoneDigit
    | [d] => String.singleton d ++ style.afterLoneDigit
    | d :: ds => String.singleton d ++ "." ++ String.ofList ds
  tail ++ "e" ++ (if power < 0 then "-" else "+") ++ twoDigits power.natAbs

def writeDecimal (style : FloatStyle) (d : Decimal) : String :=
  let digits := Nat.toDigits 10 d.digits
  let power := (digits.length : Int) + d.exponent - 1
  if power < style.least ∨ style.bound ≤ power then style.scientific digits d.exponent
  else positional digits d.exponent

def write (style : FloatStyle) : Binary64 → String
  | .nan => style.undefined
  | .infinite true => style.negativeInfinity
  | .infinite false => style.infinity
  | .finite negative mantissa exponent =>
    (if negative then "-" else "") ++
      (if mantissa = 0 then "0.0" else style.writeDecimal (Decimal.shortest mantissa exponent))

end FloatStyle

end Ramlify
