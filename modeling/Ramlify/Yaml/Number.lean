import Ramlify.Unicode.Blank
import Ramlify.Unicode.Digit
import Ramlify.Text.Split
import Ramlify.Yaml.ScalarType
import Ramlify.Yaml.Tag

/-!
# Texts of numbers

Whether the text of a scalar is a number of its type: a whole number, which may be binary, octal,
hexadecimal or written with sixtieths, or a floating-point number. The tag of a scalar may claim a
type that its text does not have.
-/

namespace Ramlify.Yaml

def isNumberBlank (c : Char) : Bool :=
  let n := c.toNat
  (9 ≤ n && n ≤ 13) || n == 32 || (127 < n && Unicode.isBlank c)

/-- A text without the blanks around it. -/
def trimNumber (cs : List Char) : List Char :=
  ((cs.dropWhile isNumberBlank).reverse.dropWhile isNumberBlank).reverse

/-- The value of a digit, which may be a letter. -/
def digitValue? (c : Char) : Option Nat :=
  if 'a' ≤ c ∧ c ≤ 'z' then some (c.toNat - 87)
  else if 'A' ≤ c ∧ c ≤ 'Z' then some (c.toNat - 55)
  else Unicode.decimalValue? c

/-- A decimal digit of any script. -/
def isAnyDecimal (c : Char) : Bool := (Unicode.decimalValue? c).isSome

/-- The letter that may stand after a zero to give a base. -/
def baseLetter? (base : Nat) : Option Char :=
  if base = 2 then some 'b' else if base = 8 then some 'o' else if base = 16 then some 'x' else none

/-- A number without the sign of its base. -/
def dropBase (base : Nat) : List Char → List Char
  | '0' :: letter :: rest =>
    if baseLetter? base = some letter.toLower then rest else '0' :: letter :: rest
  | cs => cs

/-- Whether a text is a whole number to a base. -/
def isWholeText (base : Nat) (cs : List Char) : Bool :=
  let digits := dropBase base (ScalarType.unsigned (trimNumber cs))
  !digits.isEmpty && (digits.all fun c => (digitValue? c).any (· < base)) &&
    (base != 10 || digits.length ≤ digitLimit)

def requireNumber (isNumber : Bool) : Reading Unit :=
  if isNumber then .ok () else .error (.misuse .content)

/-- The text of a number without underscores. -/
def withoutUnderscores (cs : List Char) : List Char := cs.filter (· != '_')

/-- Takes away the sign of a number. There has to be something to look at. -/
def requireSigned (cs : List Char) : Reading (List Char) :=
  if cs.isEmpty then .error (.misuse .position) else .ok (ScalarType.unsigned cs)

/-- Accepts the text of a whole number. -/
def requireWhole (text : List Char) : Reading Unit := do
  match ← requireSigned (withoutUnderscores text) with
  | ['0'] => return
  | '0' :: 'b' :: rest => requireNumber (isWholeText 2 rest)
  | '0' :: 'x' :: rest => requireNumber (isWholeText 16 rest)
  | '0' :: rest => requireNumber (isWholeText 8 ('0' :: rest))
  | [] => .error (.misuse .position)
  | cs => requireNumber ((Text.split ':' cs).all (isWholeText 10))

/-- The exponent of a number, or nothing. -/
def isExponentText : List Char → Bool
  | [] => true
  | letter :: rest =>
    let digits := ScalarType.unsigned rest
    letter.toLower == 'e' && !digits.isEmpty && digits.all isAnyDecimal

/-- The words for numbers that are not finite. -/
def infiniteWords : List String := ["inf", "infinity", "nan"]

/-- Whether a text is a floating-point number. -/
def isFloatText (cs : List Char) : Bool :=
  let size := ScalarType.unsigned (trimNumber cs)
  let whole := size.takeWhile isAnyDecimal
  let rest := size.dropWhile isAnyDecimal
  String.ofList (size.map Char.toLower) ∈ infiniteWords ||
    (match rest with
      | '.' :: rest =>
        let decimals := rest.takeWhile isAnyDecimal
        !(whole.isEmpty && decimals.isEmpty) && isExponentText (rest.dropWhile isAnyDecimal)
      | rest => !whole.isEmpty && isExponentText rest)

/-- The number of parts from which on the sixtieths of a number are too large. -/
def sixtiethLimit : Nat := 175

/-- Accepts the text of a floating-point number. -/
def requireFloat (text : List Char) : Reading Unit := do
  let cs ← requireSigned ((withoutUnderscores text).map Char.toLower)
  if String.ofList cs ∈ [".inf", ".nan"] then return
  let parts := Text.split ':' cs
  requireNumber (parts.all isFloatText)
  if sixtiethLimit ≤ parts.length then .error (.misuse .magnitude)

end Ramlify.Yaml
