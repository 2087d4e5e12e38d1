import Ramlify.Failure
import Ramlify.Yaml.Character

/-!
# Reading positions

A position in a text with the line and the column it stands in, and how to move on from it.
-/

namespace Ramlify.Yaml

/-- Why a text is not read. -/
inductive Fault where
  /-- The text is not YAML, or it has no value. -/
  | malformed
  /-- A scalar has no value of its type. -/
  | misuse (misuse : Misuse)
  deriving DecidableEq, Repr

/-- A result or a fault. -/
abbrev Reading (α : Type) := Except Fault α

/-- A position: what follows it, the number of characters before it, its line and its column. -/
structure Cursor where
  rest : List Char
  index : Nat := 0
  line : Nat := 0
  column : Nat := 0
  deriving Repr

namespace Cursor

/-- Moves on by a character. A carriage return before a line feed does not end the line. -/
def next (c : Cursor) : Cursor :=
  match c.rest with
  | [] => c
  | ch :: rest =>
    if isBreak ch || (ch == '\r' && rest.head? != some '\n') then
      { rest, index := c.index + 1, line := c.line + 1, column := 0 }
    else if ch == '\uFEFF' then { c with rest, index := c.index + 1 }
    else { rest, index := c.index + 1, line := c.line, column := c.column + 1 }

def skip : Nat → Cursor → Cursor
  | 0, c => c
  | n + 1, c => skip n c.next

/-- Moves on as long as the characters are of some kind. -/
def skipWhile (kind : Char → Bool) (c : Cursor) : Cursor :=
  c.skip (c.rest.takeWhile kind).length

/-- The characters of some kind that come next, and the position after them. -/
def take (kind : Char → Bool) (c : Cursor) : List Char × Cursor :=
  (c.rest.takeWhile kind, c.skipWhile kind)

def skipBlanks (c : Cursor) : Cursor := c.skipWhile (· == ' ')

/-- Skips a comment, if one begins here. -/
def skipComment (c : Cursor) : Cursor :=
  if c.rest.head? = some '#' then c.skipWhile fun ch => ch != '\r' && !isBreak ch else c

/-- The line end that comes next and the position after it. Most line ends count as line feeds. -/
def lineEnd? (c : Cursor) : Option (Char × Cursor) :=
  match c.rest with
  | '\r' :: '\n' :: _ => some ('\n', c.skip 2)
  | ch :: _ =>
    if ch == '\r' || ch == '\n' || ch == '\u0085' then some ('\n', c.next)
    else if isBreak ch then some (ch, c.next)
    else none
  | [] => none

/-- Skips the line end that comes next, if there is one. -/
def skipLineEnd (c : Cursor) : Cursor :=
  match c.lineEnd? with
  | some (_, c) => c
  | none => c

/-- Skips the rest of a line on which only a comment may stand. -/
def finishLine (c : Cursor) : Reading Cursor :=
  let c := c.skipBlanks.skipComment
  if endsLine c.rest then .ok c.skipLineEnd else .error .malformed

/-- Whether three marks stand here on their own. -/
def atMarks (mark : Char) (c : Cursor) : Bool :=
  [mark, mark, mark].isPrefixOf c.rest && gapFirst (c.rest.drop 3)

/-- Whether the mark between two documents stands here. -/
def atSeparator (c : Cursor) : Bool := c.atMarks '-' || c.atMarks '.'

end Cursor

/-- What line ends within a scalar stand for: a single one is a blank, more of them are all but the
first. -/
def folded (first : Char) (more : List Char) : List Char :=
  if first ≠ '\n' then first :: more
  else if more.isEmpty then [' ']
  else more

end Ramlify.Yaml
