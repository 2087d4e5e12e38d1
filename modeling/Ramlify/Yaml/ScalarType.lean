import Ramlify.Yaml.Timestamp

/-!
# Types of plain scalars

A scalar of YAML 1.1 that is written without quotes has a type by its form: `yes` is a truth value,
`0x1F` a number, `~` nothing. A text of such a form has to be written within quotes.
-/

namespace Ramlify.Yaml

/-- The types that plain scalars have by their form. -/
inductive ScalarType where
  | bool
  | float
  | int
  | merge
  | null
  | timestamp
  | value
  /-- A mark of YAML on its own, which no plain scalar begins with. -/
  | mark
  | text
  deriving DecidableEq, Repr

namespace ScalarType

def boolWords : List String :=
  ["yes", "Yes", "YES", "no", "No", "NO", "true", "True", "TRUE", "false", "False", "FALSE",
   "on", "On", "ON", "off", "Off", "OFF"]

def nullWords : List String := ["~", "null", "Null", "NULL", ""]

/-- The words that are infinite numbers, apart from a sign. -/
def infinityWords : List String := [".inf", ".Inf", ".INF"]

/-- The words that are undefined numbers. -/
def undefinedWords : List String := [".nan", ".NaN", ".NAN"]

def isDecimal (c : Char) : Bool := '0' ≤ c && c ≤ '9'

def isSpaced (c : Char) : Bool := isDecimal c || c == '_'

def unsigned : List Char → List Char
  | c :: cs => if c = '-' ∨ c = '+' then cs else c :: cs
  | [] => []

/-- One digit, or two that are a number below sixty, up to the end. -/
def isSixtieth : List Char → Bool
  | [b] => isDecimal b
  | [a, b] => '0' ≤ a && a ≤ '5' && isDecimal b
  | _ => false

/-- A nonempty series of sixtieths, each after a colon. -/
def isSixtieths (cs : List Char) : Bool :=
  match cs with
  | ':' :: rest =>
    let first := rest.takeWhile (· != ':')
    let more := rest.dropWhile (· != ':')
    isSixtieth first && (more.isEmpty || moreSixtieths more.length more)
  | _ => false
where
  /-- The series after the first one. -/
  moreSixtieths : Nat → List Char → Bool
    | 0, _ => false
    | fuel + 1, ':' :: rest =>
      let first := rest.takeWhile (· != ':')
      let more := rest.dropWhile (· != ':')
      isSixtieth first && (more.isEmpty || moreSixtieths fuel more)
    | _ + 1, _ => false

/-- The form of a whole number without its sign: binary, octal, decimal, hexadecimal, or with
sixtieths. -/
def isWhole : List Char → Bool
  | '0' :: 'b' :: rest => !rest.isEmpty && rest.all fun c => c == '0' || c == '1' || c == '_'
  | '0' :: 'x' :: rest =>
    !rest.isEmpty && rest.all fun c =>
      isSpaced c || ('a' ≤ c && c ≤ 'f') || ('A' ≤ c && c ≤ 'F')
  | '0' :: rest => rest.all fun c => ('0' ≤ c && c ≤ '7') || c == '_'
  | c :: rest =>
    isDecimal c &&
      (rest.all isSpaced || isSixtieths (rest.dropWhile isSpaced))
  | [] => false

/-- The exponent of a number, or nothing. -/
def isExponent : List Char → Bool
  | [] => true
  | letter :: sign :: digits =>
    (letter == 'e' || letter == 'E') && (sign == '-' || sign == '+') && !digits.isEmpty &&
      digits.all isDecimal
  | _ => false

/-- The form of a floating-point number that begins with a digit. -/
def isPointed (cs : List Char) : Bool :=
  match cs.dropWhile isSpaced with
  | '.' :: rest => isExponent (rest.dropWhile isSpaced)
  | ':' :: rest =>
    let whole := (':' :: rest).takeWhile (· != '.')
    match (':' :: rest).dropWhile (· != '.') with
    | '.' :: decimals => isSixtieths whole && decimals.all isSpaced
    | _ => false
  | _ => false

/-- The form of a floating-point number. A number that begins with a point has no sign. -/
def isFloat (cs : List Char) : Bool :=
  let size := unsigned cs
  String.ofList size ∈ infinityWords || String.ofList cs ∈ undefinedWords ||
    (match size with
      | c :: _ => isDecimal c && isPointed size
      | [] => false) ||
    (match cs with
      | '.' :: c :: rest => isDecimal c && isExponent (rest.dropWhile isSpaced)
      | _ => false)

/-- The form of a date of full width, or of a time. -/
def isTimestamp (cs : List Char) : Bool :=
  match Timestamp.parse? cs with
  | some t => t.wide || t.time.isSome
  | none => false

/-- The marks of tags, anchors and aliases. A scalar within quotes can be one of them and ask for
the type that it has by its form. -/
def markWords : List String := ["!", "&", "*"]

/-- Drops one line end at the end of a text. -/
def dropLineEnd (cs : List Char) : List Char :=
  if cs.getLast? = some '\n' then cs.dropLast else cs

/-- The type of a plain scalar. A line end after it does not count. -/
def ofPlain (cs : List Char) : ScalarType :=
  let core := dropLineEnd cs
  if cs = [] then .null
  else if core = [] then .text
  else if String.ofList core ∈ boolWords then .bool
  else if isFloat core then .float
  else if isWhole (unsigned core) then .int
  else if core = ['<', '<'] then .merge
  else if String.ofList core ∈ nullWords then .null
  else if isTimestamp core then .timestamp
  else if core = ['='] then .value
  else if String.ofList core ∈ markWords then .mark
  else .text

end ScalarType

end Ramlify.Yaml
