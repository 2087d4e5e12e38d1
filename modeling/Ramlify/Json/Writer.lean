import Ramlify.Value

/-!
# Writing JSON text

`Json.write` writes a value in a layout: on one line, or with every item and member on a line of
its own. Only quotes, backslashes and control characters are escaped. A text is stored with four
blanks for each level of nesting (`Json.stored`).
-/

namespace Ramlify.Json

/-- What stands between the parts of a text. -/
structure Layout where
  /-- Between two items or members. -/
  separator : List Char
  /-- Between a name and its value. -/
  colon : List Char
  /-- The indentation of one level; without one, everything is on one line. -/
  step : Option (List Char)

def Layout.compact : Layout := ⟨[','], [':'], none⟩

/-- One line with a blank after each separator. -/
def Layout.spaced : Layout := ⟨[',', ' '], [':', ' '], none⟩

def Layout.lines (step : List Char) : Layout := ⟨[','], [':', ' '], some step⟩

/-- The layout of stored texts. -/
def Layout.stored : Layout := .lines [' ', ' ', ' ', ' ']

/-- The start of a line at some level, or nothing on one line. -/
def Layout.newline (layout : Layout) (level : Nat) : List Char :=
  match layout.step with
  | none => []
  | some step => '\n' :: (List.replicate level step).flatten

/-- Floating-point numbers have an exponent below `10 ^ -4` and from `10 ^ 16` on. -/
def floatStyle : FloatStyle where
  least := -4
  bound := 16
  afterLoneDigit := ""
  infinity := "Infinity"
  negativeInfinity := "-Infinity"
  undefined := "NaN"

/-- The hexadecimal digit of a number below sixteen. -/
def hexDigit (n : Nat) : Char := Char.ofNat (if n < 10 then 48 + n else 87 + n)

def escape (c : Char) : List Char :=
  if c = '"' then ['\\', '"']
  else if c = '\\' then ['\\', '\\']
  else if c = '\n' then ['\\', 'n']
  else if c = '\r' then ['\\', 'r']
  else if c = '\t' then ['\\', 't']
  else if c = '\x0c' then ['\\', 'f']
  else if c = '\x08' then ['\\', 'b']
  else if c.toNat < 32 then
    ['\\', 'u', '0', '0', hexDigit (c.toNat / 16), hexDigit (c.toNat % 16)]
  else [c]

def quote (s : String) : List Char := '"' :: s.toList.flatMap escape ++ ['"']

def intText (i : Int) : List Char :=
  if i < 0 then '-' :: Nat.toDigits 10 i.natAbs else Nat.toDigits 10 i.natAbs

mutual

/-- The text of a value whose first character stands at some level. -/
def writeChars (layout : Layout) (level : Nat) : Value → List Char
  | .null => "null".toList
  | .bool true => "true".toList
  | .bool false => "false".toList
  | .int i => intText i
  | .float x => (floatStyle.write x).toList
  | .str s => quote s
  | .list [] => ['[', ']']
  | .list (first :: more) =>
    '[' :: layout.newline (level + 1) ++ writeChars layout (level + 1) first ++
      writeItems layout (level + 1) more ++ layout.newline level ++ [']']
  | .obj [] => ['{', '}']
  | .obj ((name, first) :: more) =>
    '{' :: layout.newline (level + 1) ++ quote name ++ layout.colon ++
      writeChars layout (level + 1) first ++ writeMembers layout (level + 1) more ++
      layout.newline level ++ ['}']

/-- The items after the first one, each after a separator. -/
def writeItems (layout : Layout) (level : Nat) : List Value → List Char
  | [] => []
  | item :: more =>
    layout.separator ++ layout.newline level ++ writeChars layout level item ++
      writeItems layout level more

/-- The members after the first one, each after a separator. -/
def writeMembers (layout : Layout) (level : Nat) : List (String × Value) → List Char
  | [] => []
  | (name, member) :: more =>
    layout.separator ++ layout.newline level ++ quote name ++ layout.colon ++
      writeChars layout level member ++ writeMembers layout level more

end

def write (layout : Layout) (v : Value) : String := String.ofList (writeChars layout 0 v)

/-- The text of a value, with a text standing for itself. -/
def textOf (layout : Layout) : Value → String
  | .str s => s
  | v => write layout v

/-- The text under which a value is stored. -/
def stored (v : Value) : String := textOf .stored v

end Ramlify.Json
