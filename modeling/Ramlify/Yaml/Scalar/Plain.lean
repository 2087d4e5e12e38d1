import Ramlify.Yaml.Cursor

/-!
# Plain scalars

A scalar without quotes ends before a colon or a number sign that means something, before a line
that is indented less, and within brackets also before the marks of collections.
-/

namespace Ramlify.Yaml

/-- The marks of collections within brackets that end a plain scalar. -/
def flowMarks : List Char := [',', '?', '[', ']', '\x7b', '\x7d']

/-- The marks that make a colon before them end a plain scalar within brackets. -/
def flowValueMarks : List Char := [',', '[', ']', '\x7b', '\x7d']

/-- The number of characters of a plain scalar that come before a gap or a mark. -/
def plainRun (inFlow : Bool) : List Char → Nat
  | [] => 0
  | c :: cs =>
    if isGap c || (c == ':' && (gapFirst cs || (inFlow && cs.head?.any flowValueMarks.contains))) ||
        (inFlow && flowMarks.contains c) then 0
    else plainRun inFlow cs + 1

/-- The gap after a run of a plain scalar. -/
structure PlainGap where
  /-- What the gap stands for. Nothing comes after a gap that stands for nothing. -/
  text : List Char
  next : Cursor
  /-- Whether the gap has a line end. -/
  hasLineEnd : Bool

/-- The blank lines within a gap, up to the mark between two documents or to other text. -/
def plainBreaks : Nat → List Char → Cursor → Option (List Char) × Cursor
  | 0, breaks, c => (some breaks, c)
  | fuel + 1, breaks, c =>
    if c.rest.head? = some ' ' then plainBreaks fuel breaks c.next
    else
      match c.lineEnd? with
      | none => (some breaks, c)
      | some (ch, c) =>
        if c.atSeparator then (none, c) else plainBreaks fuel (breaks ++ [ch]) c

def plainGap (c : Cursor) : PlainGap :=
  let (blanks, after) := c.take (· == ' ')
  match after.lineEnd? with
  | none => { text := blanks, next := after, hasLineEnd := false }
  | some (ch, after) =>
    if after.atSeparator then { text := [], next := after, hasLineEnd := true }
    else
      match plainBreaks after.rest.length [] after with
      | (none, next) => { text := [], next, hasLineEnd := true }
      | (some breaks, next) => { text := folded ch breaks, next, hasLineEnd := true }

/-- A plain scalar that was read: its text, the position after it, and whether a line end comes
before that. -/
structure PlainScalar where
  text : List Char
  next : Cursor
  atLineStart : Bool

/-- Goes on reading a plain scalar after a gap. -/
def plainFrom (inFlow : Bool) (indent : Int) : Nat → PlainScalar → List Char → PlainScalar
  | 0, read, _ => read
  | fuel + 1, read, gap =>
    let c := read.next
    let length := if c.rest.head? = some '#' then 0 else plainRun inFlow c.rest
    if length = 0 then read
    else
      let text := read.text ++ gap ++ c.rest.take length
      let found := plainGap (c.skip length)
      let read := { text, next := found.next, atLineStart := found.hasLineEnd }
      if found.text.isEmpty || found.next.rest.head? = some '#' ||
          (!inFlow && found.next.column < indent) then read
      else plainFrom inFlow indent fuel read found.text

/-- Reads a plain scalar whose lines go on at an indentation. -/
def readPlain (inFlow : Bool) (indent : Int) (c : Cursor) : PlainScalar :=
  plainFrom inFlow indent c.rest.length { text := [], next := c, atLineStart := false } []

end Ramlify.Yaml
