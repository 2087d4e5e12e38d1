import Ramlify.Json.Reader
import Ramlify.Text.Utf8
import Ramlify.Yaml.Cursor

/-!
# Quoted scalars

A scalar within quotes. Within double quotes a backslash starts an escape. Line ends are folded, and
the mark between two documents must not occur.
-/

namespace Ramlify.Yaml

/-- The character that a letter after a backslash stands for. -/
def unescaped? (c : Char) : Option Char :=
  match c with
  | '0' => some '\x00'
  | 'a' => some '\x07'
  | 'b' => some '\x08'
  | 't' => some '\t'
  | '\t' => some '\t'
  | 'n' => some '\n'
  | 'v' => some '\x0b'
  | 'f' => some '\x0c'
  | 'r' => some '\r'
  | 'e' => some '\x1b'
  | ' ' => some ' '
  | '"' => some '"'
  | '\\' => some '\\'
  | '/' => some '/'
  | 'N' => some '\u0085'
  | '_' => some '\u00a0'
  | 'L' => some '\u2028'
  | 'P' => some '\u2029'
  | _ => none

/-- The number of hexadecimal digits after a letter. -/
def escapeWidth? (c : Char) : Option Nat :=
  if c = 'x' then some 2 else if c = 'u' then some 4 else if c = 'U' then some 8 else none

/-- The number of so many hexadecimal digits. -/
def hexNumber? : Nat → Nat → List Char → Option Nat
  | 0, n, _ => some n
  | _ + 1, _, [] => none
  | width + 1, n, c :: cs =>
    match Json.hexValue? c with
    | none => none
    | some digit => hexNumber? width (n * 16 + digit) cs

/-- The character of a number. Half of a pair of surrogates is no character of its own. -/
def charOfCode (code : Nat) : Reading Char :=
  if 0x80000000 ≤ code then .error (.misuse .magnitude)
  else if 0x110000 ≤ code then .error (.misuse .content)
  else if 0xD800 ≤ code ∧ code ≤ 0xDFFF then .ok Text.replacement
  else .ok (Char.ofNat code)

/-- The line ends that come next, with the blanks around them. -/
def quotedBreaks : Nat → List Char → Cursor → Reading (List Char × Cursor)
  | 0, breaks, c => .ok (breaks, c)
  | fuel + 1, breaks, c =>
    if c.atSeparator then .error .malformed
    else
      let c := c.skipWhile fun ch => ch == ' ' || ch == '\t'
      match c.lineEnd? with
      | none => .ok (breaks, c)
      | some (ch, c) => quotedBreaks fuel (breaks ++ [ch]) c

/-- What an escape after its backslash stands for. -/
def readEscape (c : Cursor) : Reading (List Char × Cursor) :=
  match c.rest with
  | [] => .error .malformed
  | ch :: digits =>
    match unescaped? ch, escapeWidth? ch with
    | some plain, _ => .ok ([plain], c.next)
    | none, some width =>
      match hexNumber? width 0 digits with
      | none => .error .malformed
      | some code => do return ([← charOfCode code], c.skip (width + 1))
    | none, none =>
      match c.lineEnd? with
      | none => .error .malformed
      | some (_, c) => quotedBreaks (c.rest.length + 1) [] c

/-- The characters up to the closing quote or a gap. -/
def quotedRun (double : Bool) : Nat → List Char → Cursor → Reading (List Char × Cursor)
  | 0, text, c => .ok (text, c)
  | fuel + 1, text, c =>
    match c.rest with
    | [] => .ok (text, c)
    | '\'' :: '\'' :: _ =>
      if double then quotedRun double fuel (text ++ ['\'']) c.next
      else quotedRun double fuel (text ++ ['\'']) (c.skip 2)
    | ch :: _ =>
      if isGap ch || ch == (if double then '"' else '\'') then .ok (text, c)
      else if double && ch == '\\' then
        match readEscape c.next with
        | .error fault => .error fault
        | .ok (more, c) => quotedRun double fuel (text ++ more) c
      else quotedRun double fuel (text ++ [ch]) c.next

def quotedGap (c : Cursor) : Reading (List Char × Cursor) :=
  let (blanks, c) := c.take fun ch => ch == ' ' || ch == '\t'
  if c.rest.isEmpty then .error .malformed
  else
    match c.lineEnd? with
    | none => .ok (blanks, c)
    | some (ch, c) => do
      let (breaks, c) ← quotedBreaks (c.rest.length + 1) [] c
      return (folded ch breaks, c)

/-- Goes on reading a quoted scalar up to its closing quote. -/
def quotedFrom (double : Bool) : Nat → List Char → Cursor → Reading (List Char × Cursor)
  | 0, _, _ => .error .malformed
  | fuel + 1, text, c => do
    let (text, c) ← quotedRun double (c.rest.length + 1) text c
    if c.rest.head? = some (if double then '"' else '\'') then return (text, c.next)
    let (gap, c) ← quotedGap c
    quotedFrom double fuel (text ++ gap) c

/-- Reads a quoted scalar from its opening quote on. -/
def readQuoted (double : Bool) (c : Cursor) : Reading (List Char × Cursor) :=
  quotedFrom double (c.rest.length + 1) [] c.next

end Ramlify.Yaml
