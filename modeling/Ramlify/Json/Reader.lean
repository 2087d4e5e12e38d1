import Ramlify.Json.Fault
import Ramlify.Value

/-!
# Reading JSON text

`Json.read` turns a text into a value or says what is wrong with it and where. Of several members
with one name the last value counts, at the place of the first. Besides the numbers of JSON the
words `NaN`, `Infinity` and `-Infinity` are read.

The reader works on the remaining characters. A value takes at least one of them, so twice the
length of the text bounds the depth of the recursion.
-/

namespace Ramlify.Json

/-- The blank characters between the parts of a text. -/
def isSpace (c : Char) : Bool := c == ' ' || c == '\t' || c == '\n' || c == '\r'

def skip (cs : List Char) : List Char := cs.dropWhile isSpace

/-- What remains after some given characters. -/
def after? : List Char → List Char → Option (List Char)
  | [], cs => some cs
  | _ :: _, [] => none
  | w :: ws, c :: cs => if w = c then after? ws cs else none

/-! ## Quoted text -/

def hexValue? (c : Char) : Option Nat :=
  let n := c.toNat
  if 48 ≤ n ∧ n ≤ 57 then some (n - 48)
  else if 65 ≤ n ∧ n ≤ 70 then some (n - 55)
  else if 97 ≤ n ∧ n ≤ 102 then some (n - 87)
  else none

/-- The value of four hexadecimal digits. -/
def hexValue4? (a b c d : Char) : Option Nat := do
  return ((← hexValue? a) * 16 + (← hexValue? b)) * 256 + (← hexValue? c) * 16 + (← hexValue? d)

/-- The character that a backslash with one letter stands for. -/
def escaped? (c : Char) : Option Char :=
  if c = '"' ∨ c = '\\' ∨ c = '/' then some c
  else if c = 'b' then some '\x08'
  else if c = 'f' then some '\x0c'
  else if c = 'n' then some '\n'
  else if c = 'r' then some '\r'
  else if c = 't' then some '\t'
  else none

/-- A part of a quoted text: a character, or the sixteen bits that an escape gives. -/
inductive Piece where
  | char (c : Char)
  | unit (n : Nat)
  deriving DecidableEq, Repr

/-- Reads the parts of a quoted text up to its end. `start` begins with the opening quote. -/
def pieces (start : List Char) : List Char → Except Fault (List Piece × List Char)
  | [] => .error ⟨.unterminated, start⟩
  | '"' :: rest => .ok ([], rest)
  | '\\' :: [] => .error ⟨.unterminated, start⟩
  | '\\' :: 'u' :: a :: b :: c :: d :: e :: rest =>
    match hexValue4? a b c d with
    | some n => do
      let (more, rest) ← pieces start (e :: rest)
      .ok (.unit n :: more, rest)
    | none => .error ⟨.unicodeEscape, 'u' :: a :: b :: c :: d :: e :: rest⟩
  | '\\' :: 'u' :: rest => .error ⟨.unicodeEscape, 'u' :: rest⟩
  | '\\' :: c :: rest =>
    match escaped? c with
    | some e => do
      let (more, rest) ← pieces start rest
      .ok (.char e :: more, rest)
    | none => .error ⟨.escape, '\\' :: c :: rest⟩
  | c :: rest =>
    if c.toNat < 32 then .error ⟨.control, c :: rest⟩
    else do
      let (more, rest) ← pieces start rest
      .ok (.char c :: more, rest)

/-- The first half of a pair of sixteen-bit units. -/
def isHighHalf (n : Nat) : Bool := 0xD800 ≤ n && n < 0xDC00

/-- The second half of a pair of sixteen-bit units. -/
def isLowHalf (n : Nat) : Bool := 0xDC00 ≤ n && n < 0xE000

/-- The character of a sixteen-bit unit, with the replacement character for a lone half. -/
def unitChar (n : Nat) : Char :=
  if isHighHalf n || isLowHalf n then '\uFFFD' else Char.ofNat n

def pairChar (high low : Nat) : Char :=
  Char.ofNat (0x10000 + (high - 0xD800) * 0x400 + (low - 0xDC00))

def joinPieces : List Piece → List Char
  | [] => []
  | .char c :: rest => c :: joinPieces rest
  | .unit h :: .unit l :: rest =>
    if isHighHalf h && isLowHalf l then pairChar h l :: joinPieces rest
    else unitChar h :: joinPieces (.unit l :: rest)
  | .unit n :: rest => unitChar n :: joinPieces rest

/-- Reads a quoted text after its opening quote. -/
def quoted (start rest : List Char) : Except Fault (String × List Char) := do
  let (parts, rest) ← pieces start rest
  .ok (String.ofList (joinPieces parts), rest)

/-! ## Numbers -/

/-- Whether a character is one of the digits 0 to 9. -/
def isDigit (c : Char) : Bool := '0' ≤ c && c ≤ '9'

/-- The number that decimal digits stand for. -/
def natOfDigits (cs : List Char) : Nat := cs.foldl (fun n c => n * 10 + (c.toNat - 48)) 0

/-- The most digits of a whole number. -/
def maxDigits : Nat := 4300

/-- The digits before the point: one zero, or digits that do not begin with zero. -/
def wholeDigits : List Char → List Char × List Char
  | [] => ([], [])
  | c :: cs =>
    if c = '0' then ([c], cs)
    else if isDigit c then (c :: cs.takeWhile isDigit, cs.dropWhile isDigit)
    else ([], c :: cs)

/-- The digits after a point, if at least one follows it. -/
def fraction? : List Char → Option (List Char × List Char)
  | '.' :: cs =>
    match cs.takeWhile isDigit with
    | [] => none
    | ds => some (ds, cs.dropWhile isDigit)
  | _ => none

def sign : List Char → Bool × List Char
  | '-' :: cs => (true, cs)
  | '+' :: cs => (false, cs)
  | cs => (false, cs)

/-- An exponent, if at least one digit follows its letter and sign. -/
def exponent? : List Char → Option (Int × List Char)
  | [] => none
  | c :: cs =>
    if c = 'e' ∨ c = 'E' then
      let (negative, cs) := sign cs
      match cs.takeWhile isDigit with
      | [] => none
      | ds =>
        let size : Int := natOfDigits ds
        some (if negative then -size else size, cs.dropWhile isDigit)
    else none

/-- Reads a number whose sign is known. `start` begins with the whole number's text. -/
def unsigned (start : List Char) (negative : Bool) (cs : List Char) :
    Except Fault (Value × List Char) :=
  match wholeDigits cs with
  | ([], _) => .error ⟨.noValue, start⟩
  | (whole, rest) =>
    let afterPoint := fraction? rest
    let (decimals, rest) := afterPoint.getD ([], rest)
    let afterLetter := exponent? rest
    let (power, rest) := afterLetter.getD (0, rest)
    if afterPoint.isSome || afterLetter.isSome then
      let x := Binary64.ofDecimal negative (natOfDigits (whole ++ decimals))
        (power - decimals.length)
      .ok (.float x, rest)
    else if maxDigits < whole.length then .error ⟨.tooManyDigits, start⟩
    else
      let size : Int := natOfDigits whole
      .ok (.int (if negative then -size else size), rest)

def number (cs : List Char) : Except Fault (Value × List Char) :=
  match cs with
  | '-' :: rest => unsigned cs true rest
  | _ => unsigned cs false cs

/-! ## Values -/

def words : List (List Char × Value) :=
  [("null".toList, .null), ("true".toList, .bool true), ("false".toList, .bool false),
   ("NaN".toList, .float .nan), ("Infinity".toList, .float (.infinite false)),
   ("-Infinity".toList, .float (.infinite true))]

/-- Reads a value that is a word or a number. -/
def atom (cs : List Char) : Except Fault (Value × List Char) :=
  match words.findSome? fun word => (after? word.1 cs).map fun rest => (word.2, rest) with
  | some found => .ok found
  | none => number cs

mutual

def value : Nat → List Char → Except Fault (Value × List Char)
  | 0, cs => .error ⟨.noValue, cs⟩
  | _ + 1, [] => .error ⟨.noValue, []⟩
  | fuel + 1, c :: rest =>
    if c = '"' then do
      let (text, rest) ← quoted (c :: rest) rest
      .ok (.str text, rest)
    else if c = '{' then
      match skip rest with
      | '}' :: rest => .ok (.obj [], rest)
      | rest => do
        let (found, rest) ← members fuel [] rest
        .ok (.obj found, rest)
    else if c = '[' then
      match skip rest with
      | ']' :: rest => .ok (.list [], rest)
      | rest => do
        let (found, rest) ← items fuel rest
        .ok (.list found, rest)
    else atom (c :: rest)

/-- Reads the items of a list up to its end. -/
def items : Nat → List Char → Except Fault (List Value × List Char)
  | 0, cs => .error ⟨.noValue, cs⟩
  | fuel + 1, cs => do
    let (first, rest) ← value fuel cs
    match skip rest with
    | ']' :: rest => .ok ([first], rest)
    | ',' :: rest => do
      let (more, rest) ← items fuel (skip rest)
      .ok (first :: more, rest)
    | rest => .error ⟨.noComma, rest⟩

/-- Reads the members of an object up to its end and adds them to those before. -/
def members : Nat → Members → List Char → Except Fault (Members × List Char)
  | 0, _, cs => .error ⟨.noValue, cs⟩
  | fuel + 1, before, cs =>
    match cs with
    | '"' :: rest => do
      let (name, rest) ← quoted cs rest
      match skip rest with
      | ':' :: rest => do
        let (found, rest) ← value fuel (skip rest)
        let before := Entries.put before name found
        match skip rest with
        | '}' :: rest => .ok (before, rest)
        | ',' :: rest => members fuel before (skip rest)
        | rest => .error ⟨.noComma, rest⟩
      | rest => .error ⟨.noColon, rest⟩
    | _ => .error ⟨.noName, cs⟩

end

def read (text : List Char) : Except Fault Value :=
  match text with
  | '\uFEFF' :: _ => .error ⟨.byteOrderMark, text⟩
  | _ => do
    let (found, rest) ← value (2 * text.length + 2) (skip text)
    match skip rest with
    | [] => .ok found
    | rest => .error ⟨.extra, rest⟩

end Ramlify.Json
