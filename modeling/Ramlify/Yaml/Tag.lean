import Ramlify.Json.Reader
import Ramlify.Text.Utf8
import Ramlify.Yaml.Cursor

/-!
# Tags

The tag of a node is written in full, or as a handle with a suffix. Directives before a document
declare handles.
-/

namespace Ramlify.Yaml

/-- A tag as it is written. -/
structure TagText where
  handle : Option String := none
  suffix : String
  deriving DecidableEq, Repr

/-- A directive. Those that are not known are passed over. -/
inductive Directive where
  | version (major : Nat)
  | handle (handle start : String)
  | other
  deriving DecidableEq, Repr

/-! ## Parts of a tag -/

def tagMarks : List Char := "-;/?:@&=+$,_.!~*'()[]%".toList

/-- The characters that may occur in a tag. -/
def isTagChar (c : Char) : Bool := c.isAlphanum || tagMarks.contains c

/-- The bytes of the escapes that come next, and the position after them. -/
def escapedBytes : Nat → List Nat → Cursor → Reading (List Nat × Cursor)
  | 0, bytes, c => .ok (bytes, c)
  | fuel + 1, bytes, c =>
    match c.rest with
    | '%' :: a :: b :: _ =>
      match Json.hexValue? a, Json.hexValue? b with
      | some high, some low => escapedBytes fuel (bytes ++ [high * 16 + low]) (c.skip 3)
      | _, _ => .error .malformed
    | '%' :: _ => .error .malformed
    | _ => .ok (bytes, c)

/-- The characters of a tag that come next, escapes decoded. -/
def tagChars : Nat → List Char → Cursor → Reading (List Char × Cursor)
  | 0, text, c => .ok (text, c)
  | fuel + 1, text, c =>
    match c.rest with
    | '%' :: _ => do
      let (bytes, c) ← escapedBytes (c.rest.length + 1) [] c
      match Text.decode? bytes with
      | none => .error .malformed
      | some decoded => tagChars fuel (text ++ decoded) c
    | ch :: _ => if isTagChar ch then tagChars fuel (text ++ [ch]) c.next else .ok (text, c)
    | [] => .ok (text, c)

/-- The main part of a tag. There is at least one character. -/
def readTagText (c : Cursor) : Reading (String × Cursor) := do
  if !c.rest.head?.any isTagChar then .error .malformed
  let (text, c) ← tagChars (c.rest.length + 1) [] c
  return (String.ofList text, c)

/-- A handle: a name between exclamation marks, or one exclamation mark before a blank. -/
def readHandle (c : Cursor) : Reading (String × Cursor) :=
  match c.rest with
  | '!' :: ' ' :: _ => .ok ("!", c.next)
  | '!' :: rest =>
    let name := rest.takeWhile isNameChar
    if (rest.drop name.length).head? = some '!' then
      .ok (String.ofList ('!' :: name ++ ['!']), c.skip (name.length + 2))
    else .error .malformed
  | _ => .error .malformed

/-! ## Tags -/

/-- A tag in full, between angle brackets. -/
def readFullTag (c : Cursor) : Reading (TagText × Cursor) := do
  let (suffix, c) ← readTagText (c.skip 2)
  if c.rest.head? = some '>' then return ({ suffix }, c.next) else .error .malformed

/-- A tag with a handle. Up to the next gap an exclamation mark ends the handle; without one the
handle is a single exclamation mark. -/
def readShortTag (c : Cursor) : Reading (TagText × Cursor) := do
  let word := (c.rest.drop 1).takeWhile fun ch => !endsWord [ch]
  let (handle, c) ← if word.contains '!' then readHandle c else .ok ("!", c.next)
  let (suffix, c) ← readTagText c
  return ({ handle := some handle, suffix }, c)

/-- Reads a tag from its exclamation mark on. -/
def readTag (c : Cursor) : Reading (TagText × Cursor) := do
  let (tag, c) ←
    if (c.rest.drop 1).head? = some '<' then readFullTag c
    else if gapFirst (c.rest.drop 1) then .ok ({ suffix := "!" }, c.next)
    else readShortTag c
  if endsWord c.rest then return (tag, c) else .error .malformed

/-! ## Directives -/

/-- The greatest number of digits of a number. -/
def digitLimit : Nat := 4300

def readNumber (c : Cursor) : Reading (Nat × Cursor) :=
  let (digits, next) := c.take fun ch => '0' ≤ ch && ch ≤ '9'
  if digits.isEmpty then .error .malformed
  else if digitLimit < digits.length then .error (.misuse .content)
  else .ok (digits.foldl (fun n ch => n * 10 + (ch.toNat - 48)) 0, next)

/-- The version of YAML that a document is written in. -/
def readVersion (c : Cursor) : Reading (Directive × Cursor) := do
  let (major, c) ← readNumber c.skipBlanks
  if c.rest.head? ≠ some '.' then .error .malformed
  let (_, c) ← readNumber c.next
  if endsWord c.rest then return (.version major, c) else .error .malformed

/-- The handle that a directive declares, and what it stands for. -/
def readHandleDirective (c : Cursor) : Reading (Directive × Cursor) := do
  let (handle, c) ← readHandle c.skipBlanks
  if c.rest.head? ≠ some ' ' then .error .malformed
  let (start, c) ← readTagText c.skipBlanks
  if endsWord c.rest then return (.handle handle start, c) else .error .malformed

/-- Reads a directive from its percent sign to the end of its line. -/
def readDirective (c : Cursor) : Reading (Directive × Cursor) := do
  let (name, c) := c.next.take isNameChar
  if name.isEmpty || !endsWord c.rest then .error .malformed
  let (directive, c) ← match String.ofList name with
    | "YAML" => readVersion c
    | "TAG" => readHandleDirective c
    | _ => .ok (.other, c.skipWhile fun ch => ch != '\r' && !isBreak ch)
  return (directive, ← c.finishLine)

end Ramlify.Yaml
