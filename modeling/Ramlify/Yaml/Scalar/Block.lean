import Ramlify.Yaml.Cursor

/-!
# Block scalars

A scalar whose lines are indented. The literal style keeps its line ends, the folded style joins
lines. A header tells what becomes of the line ends at the end, and may give the indentation.
-/

namespace Ramlify.Yaml

/-- What becomes of the line ends at the end of a block scalar. -/
inductive Chomping where
  | strip
  | clip
  | keep
  deriving DecidableEq, Repr

/-- The header of a block scalar. -/
structure BlockHeader where
  chomping : Chomping := .clip
  indent : Option Nat := none

/-- The sign that tells what becomes of the line ends at the end. -/
def chompingOf? (c : Cursor) : Option Chomping :=
  match c.rest with
  | '+' :: _ => some .keep
  | '-' :: _ => some .strip
  | _ => none

/-- The digit of an indentation, and the position after it. -/
def indentDigit (c : Cursor) : Reading (Option Nat × Cursor) :=
  match c.rest with
  | ch :: _ =>
    if ch = '0' then .error .malformed
    else if '1' ≤ ch ∧ ch ≤ '9' then .ok (some (ch.toNat - 48), c.next)
    else .ok (none, c)
  | [] => .ok (none, c)

/-- The header of a block scalar: a sign and a digit, in any order. -/
def readBlockHeader (c : Cursor) : Reading (BlockHeader × Cursor) := do
  let (header, c) ← match chompingOf? c with
    | some chomping => do
      let (indent, c) ← indentDigit c.next
      pure ({ chomping, indent : BlockHeader }, c)
    | none => do
      let (indent, c) ← indentDigit c
      match indent, chompingOf? c with
      | some _, some chomping => pure ({ chomping, indent : BlockHeader }, c.next)
      | _, _ => pure ({ indent : BlockHeader }, c)
  if endsWord c.rest then return (header, ← c.finishLine) else .error .malformed

/-- The blank lines that come first, the greatest width of one of them, and the position after
them. -/
def leadingLines : Nat → List Char → Nat → Cursor → List Char × Nat × Cursor
  | 0, breaks, width, c => (breaks, width, c)
  | fuel + 1, breaks, width, c =>
    if c.rest.head? = some ' ' then leadingLines fuel breaks (max width c.next.column) c.next
    else
      match c.lineEnd? with
      | none => (breaks, width, c)
      | some (ch, c) => leadingLines fuel (breaks ++ [ch]) width c

def skipIndent : Nat → Nat → Cursor → Cursor
  | 0, _, c => c
  | fuel + 1, indent, c =>
    if c.column < indent ∧ c.rest.head? = some ' ' then skipIndent fuel indent c.next else c

/-- The line ends that come next, with the indentation after each. -/
def blockBreaks (indent : Nat) : Nat → List Char → Cursor → List Char × Cursor
  | 0, breaks, c => (breaks, c)
  | fuel + 1, breaks, c =>
    let c := skipIndent indent indent c
    match c.lineEnd? with
    | none => (breaks, c)
    | some (ch, c) => blockBreaks indent fuel (breaks ++ [ch]) c

/-- Whether a line begins with a blank. -/
def isSpacedLine (c : Cursor) : Bool := c.rest.head?.any fun ch => ch == ' ' || ch == '\t'

/-- A block scalar as far as it was read: its text, its last line end, and the blank lines after
that. -/
structure BlockRead where
  text : List Char := []
  lineEnd : List Char := []
  breaks : List Char := []
  next : Cursor

/-- What stands between two lines. -/
def betweenLines (isFolded spaced : Bool) (read : BlockRead) : List Char :=
  if isFolded && read.lineEnd == ['\n'] && !spaced && !isSpacedLine read.next then
    if read.breaks.isEmpty then [' '] else []
  else read.lineEnd

def blockLines (isFolded : Bool) (indent : Nat) : Nat → BlockRead → BlockRead
  | 0, read => read
  | fuel + 1, read =>
    if read.next.column = indent ∧ read.next.rest ≠ [] then
      let (line, c) := read.next.take fun ch => ch != '\r' && !isBreak ch
      let text := read.text ++ read.breaks ++ line
      let (lineEnd, c) := match c.lineEnd? with
        | none => ([], c)
        | some (ch, c) => ([ch], c)
      let (breaks, c) := blockBreaks indent (c.rest.length + 1) [] c
      let found := { text, lineEnd, breaks, next := c }
      if c.column = indent ∧ c.rest ≠ [] then
        blockLines isFolded indent fuel
          { found with text := text ++ betweenLines isFolded (isSpacedLine read.next) found }
      else found
    else read

/-- The text of a block scalar with its last line ends. -/
def chomped (chomping : Chomping) (read : BlockRead) : List Char :=
  match chomping with
  | .strip => read.text
  | .clip => read.text ++ read.lineEnd
  | .keep => read.text ++ read.lineEnd ++ read.breaks

/-- Reads a block scalar from its mark on. Its lines are indented more than the collection it is
in. -/
def readBlock (isFolded : Bool) (outer : Int) (c : Cursor) : Reading (List Char × Cursor) := do
  let (header, c) ← readBlockHeader c.next
  let least := (max 1 (outer + 1)).toNat
  let fuel := c.rest.length + 1
  let (indent, breaks, c) := match header.indent with
    | some indent =>
      let indent := least + indent - 1
      let (breaks, c) := blockBreaks indent fuel [] c
      (indent, breaks, c)
    | none =>
      let (breaks, width, c) := leadingLines fuel [] 0 c
      (max least width, breaks, c)
  let read := blockLines isFolded indent fuel { breaks, next := c }
  return (chomped header.chomping read, read.next)

end Ramlify.Yaml
