/-!
# Hexadecimal numbers

The digits of numbers to the base sixteen, in small letters.
-/

namespace Ramlify.Text

/-- The digits of a number, at least so many. -/
def hexText (width n : Nat) : List Char :=
  let digits := Nat.toDigits 16 n
  List.replicate (width - digits.length) '0' ++ digits

end Ramlify.Text
