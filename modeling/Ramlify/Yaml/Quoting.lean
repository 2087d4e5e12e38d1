import Ramlify.Json.Writer
import Ramlify.Text.Hex
import Ramlify.Yaml.Character
import Ramlify.Yaml.ScalarType

/-!
# Quoting

How a text is written as a YAML scalar: plain where it is read back as that text, otherwise within
single quotes, and within double quotes where blanks and line ends meet or characters have to be
escaped.
-/

namespace Ramlify.Yaml

/-- The characters that mean something at the start of a scalar. -/
def indicators : List Char :=
  ['#', ',', '[', ']', '\x7b', '\x7d', '&', '*', '!', '|', '>', '\'', '"', '%', '@', '\x60']

/-- Whether the start of a text would be taken for something else than text. -/
def startsMarked : List Char → Bool
  | [] => false
  | c :: cs =>
    c ∈ indicators || ((c == '?' || c == ':' || c == '-') && gapFirst cs) ||
      ['-', '-', '-'].isPrefixOf (c :: cs) || ['.', '.', '.'].isPrefixOf (c :: cs)

/-- Whether a colon before a gap, or a number sign after one, stands after the first character.
The first argument is the character before the text. -/
def marksWithin (before : Char) : List Char → Bool
  | [] => false
  | c :: cs =>
    (c == ':' && gapFirst cs) || (c == '#' && isGap before) || marksWithin c cs

/-- Whether a text has two neighbouring characters of some kinds. -/
def hasPair (first second : Char → Bool) : List Char → Bool
  | a :: b :: rest => (first a && second b) || hasPair first second (b :: rest)
  | _ => false

def isBlank (c : Char) : Bool := c == ' '

/-- Whether a character of some kind stands at one of the ends. -/
def atEnds (kind : Char → Bool) (cs : List Char) : Bool :=
  cs.head?.any kind || cs.getLast?.any kind

/-- Whether a text can stand within single quotes. -/
def fitsSingle (cs : List Char) : Bool :=
  cs.all isShown && !hasPair isBlank isBreak cs && !hasPair isBreak isBlank cs

/-- Whether a text can stand without quotes, its type aside. -/
def fitsPlain (cs : List Char) : Bool :=
  fitsSingle cs && !cs.any isBreak && !atEnds isBlank cs && !startsMarked cs &&
    (match cs with
      | [] => true
      | c :: rest => !marksWithin c rest)

/-- The ways of writing a text. -/
inductive Style where
  | plain
  | single
  | double
  deriving DecidableEq, Repr

/-- The way in which a text is written. -/
def Style.of (cs : List Char) : Style :=
  if ScalarType.ofPlain cs = .text && fitsPlain cs then .plain
  else if fitsSingle cs then .single
  else .double

/-! ## Single quotes -/

/-- A text between single quotes. A quote is doubled. The line ends of a series are written with one
more where the series begins with a line feed, and the text goes on at the indentation. -/
def singleBody (indent : Nat) (inBreak : Bool) : List Char → List Char
  | [] => if inBreak then List.replicate indent ' ' else []
  | c :: cs =>
    if isBreak c then
      (if c = '\n' ∧ inBreak = false then ['\n'] else []) ++ c :: singleBody indent true cs
    else
      (if inBreak then List.replicate indent ' ' else []) ++
        (if c = '\'' then ['\'', '\''] else [c]) ++ singleBody indent false cs

/-! ## Double quotes -/

/-- The letter that stands for a character after a backslash. -/
def escapeLetter? (c : Char) : Option Char :=
  match c with
  | '\x00' => some '0'
  | '\x07' => some 'a'
  | '\x08' => some 'b'
  | '\x09' => some 't'
  | '\x0a' => some 'n'
  | '\x0b' => some 'v'
  | '\x0c' => some 'f'
  | '\x0d' => some 'r'
  | '\x1b' => some 'e'
  | '"' => some '"'
  | '\\' => some '\\'
  | '\u0085' => some 'N'
  | '\u2028' => some 'L'
  | '\u2029' => some 'P'
  | _ => none

/-- The hexadecimal digits of a number in capital letters, at least so many. -/
def hexDigits (width n : Nat) : List Char := (Text.hexText width n).map Char.toUpper

/-- A character between double quotes. Characters beyond the basic plane are escaped. -/
def doubleChar (c : Char) : List Char :=
  let n := c.toNat
  match escapeLetter? c with
  | some letter => ['\\', letter]
  | none =>
    if (0x20 ≤ n && n ≤ 0x7E) || (0xA0 ≤ n && n ≤ 0xFFFD && n != 0xFEFF) then [c]
    else if n ≤ 0xFF then '\\' :: 'x' :: hexDigits 2 n
    else if n ≤ 0xFFFF then '\\' :: 'u' :: hexDigits 4 n
    else '\\' :: 'U' :: hexDigits 8 n

/-- A text as a scalar whose lines go on at an indentation. -/
def scalarText (indent : Nat) (cs : List Char) : List Char :=
  match Style.of cs with
  | .plain => cs
  | .single => '\'' :: singleBody indent false cs ++ ['\'']
  | .double => '"' :: cs.flatMap doubleChar ++ ['"']

end Ramlify.Yaml
