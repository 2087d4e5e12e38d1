/-!
# Base 64

Whether a text is data to the base 64. Characters that do not belong to the base are passed over,
and so is everything after the padding of the last group of four.
-/

namespace Ramlify.Text

def isBase64Digit (c : Char) : Bool := c.isAlphanum || c == '+' || c == '/'

/-- Whether the rest of a text is in order, after so many digits of a group and so much padding. -/
def isBase64From : Nat → Nat → List Char → Bool
  | digits, _, [] => digits == 0
  | digits, padding, c :: cs =>
    if c = '=' then
      if 2 ≤ digits && 4 ≤ digits + padding + 1 then true
      else isBase64From digits (if 2 ≤ digits then padding + 1 else padding) cs
    else if isBase64Digit c then isBase64From ((digits + 1) % 4) 0 cs
    else isBase64From digits padding cs

/-- Whether a text is data to the base 64. -/
def isBase64 (cs : List Char) : Bool := isBase64From 0 0 cs

end Ramlify.Text
