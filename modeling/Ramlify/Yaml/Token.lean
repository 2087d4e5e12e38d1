import Ramlify.Entries
import Ramlify.Yaml.Scalar.Block
import Ramlify.Yaml.Scalar.Plain
import Ramlify.Yaml.Scalar.Quoted
import Ramlify.Yaml.Tag

/-!
# Tokens

The tokens of a YAML text. Indentation becomes tokens that open and close blocks. A key of a mapping
is known as such only by the colon after it, so places where a key may begin are remembered, one for
each level of brackets, and the token of the key is put there later. A key stands on one line and is
not longer than 1024 characters.
-/

namespace Ramlify.Yaml

/-- A token. -/
inductive Token where
  | directive (directive : Directive)
  | documentStart
  | documentEnd
  | streamEnd
  | blockSequenceStart
  | blockMappingStart
  | blockEnd
  | flowSequenceStart
  | flowSequenceEnd
  | flowMappingStart
  | flowMappingEnd
  | blockEntry
  | flowEntry
  | key
  | value
  | alias (name : String)
  | anchor (name : String)
  | tag (tag : TagText)
  | scalar (text : List Char) (plain : Bool)
  deriving DecidableEq, Repr

/-- A place where a key may begin. -/
structure KeyPlace where
  /-- The number of tokens before it. -/
  token : Nat
  /-- Whether there has to be a key, because of the indentation. -/
  needed : Bool
  index : Nat
  line : Nat
  column : Nat

/-- A text as far as its tokens were read. -/
structure Scan where
  cursor : Cursor
  tokens : Array Token := #[]
  /-- The number of brackets that are open. -/
  level : Nat := 0
  /-- The indentation of the innermost block, and those of the blocks around it. -/
  indent : Int := -1
  outer : List Int := []
  /-- Whether a key may begin here. -/
  keyAllowed : Bool := true
  /-- The places of keys by the level of brackets. -/
  places : Entries Nat KeyPlace := []

namespace Scan

def push (s : Scan) (token : Token) : Scan := { s with tokens := s.tokens.push token }

def insert (s : Scan) (position : Nat) (token : Token) : Scan :=
  let before := s.tokens.toList.take position
  let after := s.tokens.toList.drop position
  { s with tokens := (before ++ token :: after).toArray }

def skip (s : Scan) (n : Nat) : Scan := { s with cursor := s.cursor.skip n }

/-! ## Places of keys -/

def keyLimit : Nat := 1024

/-- Whether a key that begins at a place cannot go on to here. -/
def isStale (s : Scan) (place : KeyPlace) : Bool :=
  place.line != s.cursor.line || keyLimit < s.cursor.index - place.index

/-- Forgets the places whose keys cannot go on to here. -/
def dropStale (s : Scan) : Reading Scan :=
  if s.places.any fun entry => s.isStale entry.2 && entry.2.needed then .error .malformed
  else .ok { s with places := s.places.filter fun entry => !s.isStale entry.2 }

/-- Forgets the place at the current level. -/
def dropPlace (s : Scan) : Reading Scan :=
  match Entries.get? s.places s.level with
  | none => .ok s
  | some place =>
    if place.needed then .error .malformed
    else .ok { s with places := Entries.erase s.places s.level }

/-- Remembers that a key may begin here, if it may. -/
def markPlace (s : Scan) : Reading Scan := do
  if !s.keyAllowed then return s
  let s ← s.dropPlace
  let place : KeyPlace := {
    token := s.tokens.size
    needed := s.level == 0 && s.indent == s.cursor.column
    index := s.cursor.index
    line := s.cursor.line
    column := s.cursor.column }
  return { s with places := Entries.put s.places s.level place }

def allowKey (s : Scan) (keyAllowed : Bool) : Scan := { s with keyAllowed }

/-! ## Indentation -/

/-- Closes the blocks that are indented more than a column. -/
def closeBlocks (column : Int) : List Int → Scan → Scan
  | [], s => s
  | indent :: outer, s =>
    if column < s.indent then closeBlocks column outer { s.push .blockEnd with indent, outer }
    else s

/-- Closes the blocks that are indented more than a column, outside of brackets. -/
def unwind (s : Scan) (column : Int) : Scan :=
  if s.level = 0 then closeBlocks column s.outer s else s

/-- Whether a block at a column would be indented more than the innermost one. -/
def isDeeper (s : Scan) (column : Nat) : Bool := s.indent < column

def openBlock (s : Scan) (column : Nat) : Scan :=
  { s with indent := column, outer := s.indent :: s.outer }

/-- Opens a block at the current column, unless there is one. -/
def openHere (s : Scan) (start : Token) : Scan :=
  if s.isDeeper s.cursor.column then (s.openBlock s.cursor.column).push start else s

/-! ## Tokens -/

/-- Skips blanks, comments and line ends. A key may begin on a new line outside of brackets. -/
def skipGap : Nat → Scan → Scan
  | 0, s => s
  | fuel + 1, s =>
    let c := s.cursor.skipBlanks.skipComment
    match c.lineEnd? with
    | none => { s with cursor := c }
    | some (_, c) =>
      skipGap fuel { s with cursor := c, keyAllowed := s.keyAllowed || s.level == 0 }

/-- Skips a byte order mark at the start of the text. -/
def skipByteOrderMark (s : Scan) : Scan :=
  if s.cursor.index = 0 ∧ s.cursor.rest.head? = some '\uFEFF' then s.skip 1 else s

def readDirectiveToken (s : Scan) : Reading Scan := do
  let s ← (s.unwind (-1)).dropPlace
  let (directive, cursor) ← readDirective s.cursor
  return ({ s with cursor }.allowKey false).push (.directive directive)

/-- Reads the mark between two documents. -/
def readSeparator (s : Scan) (token : Token) : Reading Scan := do
  let s ← (s.unwind (-1)).dropPlace
  return ((s.allowKey false).push token).skip 3

def readOpening (s : Scan) (token : Token) : Reading Scan := do
  let s ← s.markPlace
  return (({ s with level := s.level + 1 }.allowKey true).push token).skip 1

def readClosing (s : Scan) (token : Token) : Reading Scan := do
  let s ← s.dropPlace
  return (({ s with level := s.level - 1 }.allowKey false).push token).skip 1

def readComma (s : Scan) : Reading Scan := do
  let s ← s.dropPlace
  return ((s.allowKey true).push .flowEntry).skip 1

/-- Opens a block for a mark outside of brackets. The mark may stand only where a key may begin. -/
def openForMark (s : Scan) (start : Token) : Reading Scan :=
  if s.level ≠ 0 then .ok s
  else if s.keyAllowed then .ok (s.openHere start)
  else .error .malformed

def readItemMark (s : Scan) : Reading Scan := do
  let s ← (← s.openForMark .blockSequenceStart).dropPlace
  return ((s.allowKey true).push .blockEntry).skip 1

def readKeyMark (s : Scan) : Reading Scan := do
  let s ← (← s.openForMark .blockMappingStart).dropPlace
  return ((s.allowKey (s.level == 0)).push .key).skip 1

/-- Turns a place into the start of a key. -/
def placeKey (s : Scan) (place : KeyPlace) : Scan :=
  let s := { s with places := Entries.erase s.places s.level }.insert place.token .key
  if s.level == 0 && s.isDeeper place.column then
    (s.openBlock place.column).insert place.token .blockMappingStart
  else s

def readColon (s : Scan) : Reading Scan :=
  match Entries.get? s.places s.level with
  | some place => .ok ((((s.placeKey place).allowKey false).push .value).skip 1)
  | none => do
    let s ← (← s.openForMark .blockMappingStart).dropPlace
    return ((s.allowKey (s.level == 0)).push .value).skip 1

/-- The characters that may stand after the name of an anchor. -/
def endsAnchor (cs : List Char) : Bool :=
  gapFirst cs || cs.head?.any "?:,]\x7d%@\x60".toList.contains

def readName (s : Scan) (token : String → Token) : Reading Scan := do
  let s ← s.markPlace
  let (name, cursor) := s.cursor.next.take isNameChar
  if name.isEmpty || !endsAnchor cursor.rest then .error .malformed
  return ({ s with cursor }.allowKey false).push (token (String.ofList name))

def readTagToken (s : Scan) : Reading Scan := do
  let s ← s.markPlace
  let (tag, cursor) ← readTag s.cursor
  return ({ s with cursor }.allowKey false).push (.tag tag)

def readBlockToken (s : Scan) (isFolded : Bool) : Reading Scan := do
  let s ← s.dropPlace
  let (text, cursor) ← readBlock isFolded s.indent s.cursor
  return ({ s with cursor }.allowKey true).push (.scalar text false)

def readQuotedToken (s : Scan) (double : Bool) : Reading Scan := do
  let s ← s.markPlace
  let (text, cursor) ← readQuoted double s.cursor
  return ({ s with cursor }.allowKey false).push (.scalar text false)

/-- Whether a plain scalar may begin with these characters. -/
def startsPlain (inFlow : Bool) : List Char → Bool
  | [] => false
  | c :: cs =>
    !(isGap c || "-?:,[]\x7b\x7d#&*!|>'\"%@\x60".toList.contains c) ||
      (!gapFirst cs && (c == '-' || (!inFlow && (c == '?' || c == ':'))))

def readPlainToken (s : Scan) : Reading Scan := do
  let s ← s.markPlace
  let read := readPlain (s.level != 0) (s.indent + 1) s.cursor
  return ({ s with cursor := read.next }.allowKey read.atLineStart).push (.scalar read.text true)

def finish (s : Scan) : Reading Scan := do
  let s ← (s.unwind (-1)).dropPlace
  return { (s.allowKey false).push .streamEnd with places := [] }

/-- Reads the token that begins with a mark, or else a plain scalar. -/
def readMark (s : Scan) (mark : Char) (after : List Char) : Reading Scan :=
  let inFlow := s.level != 0
  match mark with
  | '[' => s.readOpening .flowSequenceStart
  | '\x7b' => s.readOpening .flowMappingStart
  | ']' => s.readClosing .flowSequenceEnd
  | '\x7d' => s.readClosing .flowMappingEnd
  | ',' => s.readComma
  | '*' => s.readName .alias
  | '&' => s.readName .anchor
  | '!' => s.readTagToken
  | '\'' => s.readQuotedToken false
  | '"' => s.readQuotedToken true
  | _ =>
    if mark == '-' && gapFirst after then s.readItemMark
    else if mark == '?' && (inFlow || gapFirst after) then s.readKeyMark
    else if mark == ':' && (inFlow || gapFirst after) then s.readColon
    else if mark == '|' && !inFlow then s.readBlockToken false
    else if mark == '>' && !inFlow then s.readBlockToken true
    else if startsPlain inFlow (mark :: after) then s.readPlainToken
    else .error .malformed

/-- What comes after the gap before the next token. -/
def prepared (s : Scan) : Reading Scan := do
  let s ← (skipGap (s.cursor.rest.length + 1) s.skipByteOrderMark).dropStale
  return s.unwind s.cursor.column

def readNext (s : Scan) : Reading Scan :=
  let c := s.cursor
  match c.rest with
  | [] => s.finish
  | mark :: after =>
    if c.column == 0 && mark == '%' then s.readDirectiveToken
    else if c.column == 0 && c.atMarks '-' then s.readSeparator .documentStart
    else if c.column == 0 && c.atMarks '.' then s.readSeparator .documentEnd
    else s.readMark mark after

/-- Reads on by a token, and tells whether it is the last one. The places whose keys cannot go on to
the position after it are forgotten at once, before any token is handed over. -/
def fetch (s : Scan) : Reading (Scan × Bool) := do
  let ready ← s.prepared
  let next ← (← ready.readNext).dropStale
  return (next, ready.cursor.rest.isEmpty)

/-- The tokens that are certain: those before the first place where a key may still be put. -/
def settled (s : Scan) : List Token :=
  let tokens := s.tokens.toList
  s.places.foldl (fun certain entry => certain.take entry.2.token) tokens

end Scan

/-- The tokens of a text up to its end or to a fault. -/
structure Tokens where
  tokens : List Token
  fault : Fault

namespace Tokens

/-- Reads tokens to the end of the text. A token that a key may still be put before is not handed
over until it is certain, so that what ends the reading until then comes first. -/
def readFrom : Nat → Scan → Tokens
  | 0, s => { tokens := s.settled, fault := .malformed }
  | fuel + 1, s =>
    match s.fetch with
    | .error fault => { tokens := s.settled, fault }
    | .ok (next, isLast) =>
      if isLast then { tokens := next.settled, fault := .malformed } else readFrom fuel next

def ofChars (cs : List Char) : Tokens :=
  if cs.all isReadable then readFrom (cs.length + 2) { cursor := { rest := cs } }
  else { tokens := [], fault := .malformed }

end Tokens

end Ramlify.Yaml
