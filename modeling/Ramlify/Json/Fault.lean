/-!
# Faults of JSON text

What makes a text no JSON, and where. A fault keeps the characters from the faulty place on, so its
position in the text is a difference of lengths.
-/

namespace Ramlify.Json

/-- What is wrong with a text. -/
inductive Cause where
  /-- The text begins with a byte order mark. -/
  | byteOrderMark
  /-- No value begins here. -/
  | noValue
  /-- An object goes on with something other than a quoted name. -/
  | noName
  /-- A name is not followed by a colon. -/
  | noColon
  /-- A member or an item is followed by neither a comma nor the closing bracket. -/
  | noComma
  /-- A quoted text does not end. -/
  | unterminated
  /-- A quoted text holds a control character. -/
  | control
  /-- A backslash is followed by a character that it does not go with. -/
  | escape
  /-- The four hexadecimal digits of an escape are missing. -/
  | unicodeEscape
  /-- The value is followed by something else. -/
  | extra
  /-- A whole number has more digits than are read. -/
  | tooManyDigits
  deriving DecidableEq, Repr

def Cause.words : Cause → String
  | byteOrderMark => "Unexpected UTF-8 BOM (decode using utf-8-sig)"
  | noValue => "Expecting value"
  | noName => "Expecting property name enclosed in double quotes"
  | noColon => "Expecting ':' delimiter"
  | noComma => "Expecting ',' delimiter"
  | unterminated => "Unterminated string starting at"
  | control => "Invalid control character at"
  | escape => "Invalid \\escape"
  | unicodeEscape => "Invalid \\uXXXX escape"
  | extra => "Extra data"
  | tooManyDigits => "Too many digits"

/-- What is wrong, and the characters from that place on. -/
structure Fault where
  cause : Cause
  rest : List Char
  deriving DecidableEq, Repr

/-- A place in a text: lines and columns count from one, characters from zero. -/
structure Position where
  line : Nat
  column : Nat
  offset : Nat
  deriving DecidableEq, Repr

/-- The position after some characters. -/
def Position.after (before : List Char) : Position where
  line := before.count '\n' + 1
  column := (before.reverse.takeWhile (· != '\n')).length + 1
  offset := before.length

/-- The position of a fault in the text that it was found in. -/
def Fault.position (text : List Char) (fault : Fault) : Position :=
  Position.after (text.take (text.length - fault.rest.length))

/-- A fault in words, with its position. -/
def Fault.message (text : List Char) (fault : Fault) : String :=
  let place := fault.position text
  fault.cause.words ++ ": line " ++ toString place.line ++ " column " ++ toString place.column ++
    " (char " ++ toString place.offset ++ ")"

end Ramlify.Json
