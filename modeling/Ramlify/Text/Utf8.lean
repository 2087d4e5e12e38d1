/-!
# Decoding UTF-8

Bytes become characters one at a time. Bytes that are no part of a well-formed sequence become
replacement characters: one for each longest beginning of a sequence that cannot go on. Characters
that need no decoding may stand between the bytes and interrupt a sequence.
-/

namespace Ramlify.Text

/-- A byte to be decoded, or a character that is one already. -/
inductive Octet where
  | byte (n : Nat)
  | char (c : Char)
  deriving DecidableEq, Repr

/-- The character for what cannot be decoded. -/
def replacement : Char := '\uFFFD'

/-- The rest of a sequence: how many bytes are missing, between which bounds the next one lies, and
the bits so far. -/
structure Tail where
  missing : Nat
  low : Nat
  high : Nat
  bits : Nat
  deriving DecidableEq, Repr

/-- What a first byte leads to: a character of its own, the start of a sequence, or nothing. -/
def leadByte (b : Nat) : Option (Char ⊕ Tail) :=
  if b < 0x80 then some (.inl (Char.ofNat b))
  else if 0xC2 ≤ b ∧ b ≤ 0xDF then some (.inr ⟨1, 0x80, 0xBF, b - 0xC0⟩)
  else if b = 0xE0 then some (.inr ⟨2, 0xA0, 0xBF, 0⟩)
  else if b = 0xED then some (.inr ⟨2, 0x80, 0x9F, 0xD⟩)
  else if 0xE1 ≤ b ∧ b ≤ 0xEF then some (.inr ⟨2, 0x80, 0xBF, b - 0xE0⟩)
  else if b = 0xF0 then some (.inr ⟨3, 0x90, 0xBF, 0⟩)
  else if 0xF1 ≤ b ∧ b ≤ 0xF3 then some (.inr ⟨3, 0x80, 0xBF, b - 0xF0⟩)
  else if b = 0xF4 then some (.inr ⟨3, 0x80, 0x8F, 4⟩)
  else none

/-- The characters that a byte between sequences gives, and the sequence it starts. -/
def startByte (b : Nat) : List Char × Option Tail :=
  match leadByte b with
  | some (.inl c) => ([c], none)
  | some (.inr tail) => ([], some tail)
  | none => ([replacement], none)

/-- The characters that a byte within a sequence gives, and what is left of the sequence. -/
def tailByte (tail : Tail) (b : Nat) : List Char × Option Tail :=
  if tail.low ≤ b ∧ b ≤ tail.high then
    let bits := tail.bits * 64 + (b - 0x80)
    if tail.missing ≤ 1 then ([Char.ofNat bits], none)
    else ([], some ⟨tail.missing - 1, 0x80, 0xBF, bits⟩)
  else
    let (chars, state) := startByte b
    (replacement :: chars, state)

def decodeStep : Option Tail → Octet → List Char × Option Tail
  | none, .byte b => startByte b
  | some tail, .byte b => tailByte tail b
  | none, .char c => ([c], none)
  | some _, .char c => ([replacement, c], none)

def decodeFrom : Option Tail → List Octet → List Char
  | none, [] => []
  | some _, [] => [replacement]
  | state, octet :: rest =>
    let (chars, state) := decodeStep state octet
    chars ++ decodeFrom state rest

/-- Decodes bytes, with characters between them. -/
def decode (octets : List Octet) : List Char := decodeFrom none octets

def encode (cs : List Char) : List Nat :=
  (cs.flatMap String.utf8EncodeChar).map UInt8.toNat

/-- The characters whose bytes are given, if there are such. -/
def decode? (bytes : List Nat) : Option (List Char) :=
  let cs := decode (bytes.map .byte)
  if encode cs = bytes then some cs else none

end Ramlify.Text
