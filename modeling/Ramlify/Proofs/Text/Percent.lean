import Mathlib.Tactic.SplitIfs
import Ramlify.Text.Percent

/-!
# Ramlify — percent decoding undoes percent encoding

A character takes one to four bytes in UTF-8, and decoding reads exactly those bytes before it goes
on. Escapes stand for bytes one by one, so what is decoded does not depend on which of the bytes are
escaped.

* **`decode_encode`** — decoding undoes encoding.
* **`percentDecode_percentEncode`** — so does percent decoding, with digits of either case.
* **`not_mem_percentEncode`** — characters that are escaped do not occur in what is encoded.
-/

namespace Ramlify.Text

/-! ## The bytes of a character

A character is written in one to four bytes, by its number. -/

/-- The bytes of a character. -/
def bytesOf (c : Char) : List Nat := (String.utf8EncodeChar c).map UInt8.toNat

theorem bytesOf_eq (c : Char) :
    bytesOf c =
      if c.toNat ≤ 0x7F then [c.toNat]
      else if c.toNat ≤ 0x7FF then [c.toNat / 64 + 0xC0, c.toNat % 64 + 0x80]
      else if c.toNat ≤ 0xFFFF then
        [c.toNat / 4096 + 0xE0, c.toNat / 64 % 64 + 0x80, c.toNat % 64 + 0x80]
      else
        [c.toNat / 262144 + 0xF0, c.toNat / 4096 % 64 + 0x80, c.toNat / 64 % 64 + 0x80,
          c.toNat % 64 + 0x80] := by
  have hvalid : c.toNat < 0x110000 := by
    rcases c.valid with h | h <;> simp only [Char.toNat_val] at h <;> omega
  unfold bytesOf String.utf8EncodeChar
  rw [Char.toNat_val]
  dsimp only
  split_ifs with h1 h2 h3 <;>
    simp only [List.map_cons, List.map_nil, UInt8.toNat_ofNat', List.cons.injEq, and_true] <;>
    omega

/-- A text is encoded character by character. -/
theorem encode_cons (c : Char) (cs : List Char) : encode (c :: cs) = bytesOf c ++ encode cs := by
  rw [encode, List.flatMap_cons, List.map_append]
  rfl

theorem lt_of_mem_encode {cs : List Char} {b : Nat} (h : b ∈ encode cs) : b < 256 := by
  obtain ⟨byte, _, rfl⟩ := List.mem_map.mp h
  exact byte.toNat_lt

/-! ## Decoding

The decoder keeps what it knows of a character: how many bytes are missing, between which bounds the
next one has to be, and the bits so far. -/

section

variable {low high bits b : Nat} (rest : List Octet)

theorem decodeFrom_last (h : low ≤ b ∧ b ≤ high) :
    decodeFrom (some ⟨1, low, high, bits⟩) (.byte b :: rest)
      = Char.ofNat (bits * 64 + (b - 0x80)) :: decodeFrom none rest := by
  rw [decodeFrom, decodeStep, tailByte, if_pos h]
  rfl

/-- A byte behind which others are missing. -/
theorem decodeFrom_next (missing : Nat) (h : low ≤ b ∧ b ≤ high) :
    decodeFrom (some ⟨missing + 2, low, high, bits⟩) (.byte b :: rest)
      = decodeFrom (some ⟨missing + 1, 0x80, 0xBF, bits * 64 + (b - 0x80)⟩) rest := by
  rw [decodeFrom, decodeStep, tailByte, if_pos h]
  rfl

/-- The first byte of a character of several. -/
theorem decodeFrom_lead {tail : Tail} (h : leadByte b = some (.inr tail)) :
    decodeFrom none (.byte b :: rest) = decodeFrom (some tail) rest := by
  rw [decodeFrom, decodeStep, startByte, h]
  rfl

end

theorem leadByte_two {n : Nat} (hlow : 0x7F < n) (hhigh : n ≤ 0x7FF) :
    leadByte (n / 64 + 0xC0) = some (.inr ⟨1, 0x80, 0xBF, n / 64⟩) := by
  rw [leadByte, if_neg (by omega), if_pos (by omega), Nat.add_sub_cancel]

/-- The first of three bytes, with bounds for the second one that leave out what is too short and
what is no character. -/
theorem leadByte_three {n : Nat} (hlow : 0x7FF < n) (hhigh : n ≤ 0xFFFF)
    (hvalid : n < 0xD800 ∨ 0xDFFF < n) :
    ∃ low high, leadByte (n / 4096 + 0xE0) = some (.inr ⟨2, low, high, n / 4096⟩)
      ∧ low ≤ n / 64 % 64 + 0x80 ∧ n / 64 % 64 + 0x80 ≤ high := by
  unfold leadByte
  rw [if_neg (by omega), if_neg (by omega)]
  -- The first byte decides whether two bytes would do, and whether the number may be a surrogate.
  by_cases hshort : n / 4096 = 0
  · exact ⟨0xA0, 0xBF, by rw [if_pos (by omega), hshort], by omega, by omega⟩
  · rw [if_neg (by omega)]
    by_cases hsurrogate : n / 4096 = 13
    · exact ⟨0x80, 0x9F, by rw [if_pos (by omega), hsurrogate], by omega, by omega⟩
    · refine ⟨0x80, 0xBF, ?_, by omega, by omega⟩
      rw [if_neg (by omega), if_pos (by omega), Nat.add_sub_cancel]

theorem leadByte_four {n : Nat} (hlow : 0xFFFF < n) (hhigh : n < 0x110000) :
    ∃ low high, leadByte (n / 262144 + 0xF0) = some (.inr ⟨3, low, high, n / 262144⟩)
      ∧ low ≤ n / 4096 % 64 + 0x80 ∧ n / 4096 % 64 + 0x80 ≤ high := by
  unfold leadByte
  rw [if_neg (by omega), if_neg (by omega), if_neg (by omega), if_neg (by omega),
    if_neg (by omega)]
  -- The first byte decides whether three bytes would do, and whether the number may be too great.
  by_cases hshort : n / 262144 = 0
  · exact ⟨0x90, 0xBF, by rw [if_pos (by omega), hshort], by omega, by omega⟩
  · rw [if_neg (by omega)]
    by_cases hlast : n / 262144 = 4
    · exact ⟨0x80, 0x8F, by rw [if_neg (by omega), if_pos (by omega), hlast], by omega, by omega⟩
    · exact ⟨0x80, 0xBF, by rw [if_pos (by omega), Nat.add_sub_cancel], by omega, by omega⟩

/-- The bytes of a character are decoded to it, and decoding goes on after them. -/
theorem decodeFrom_bytesOf (c : Char) (rest : List Octet) :
    decodeFrom none ((bytesOf c).map .byte ++ rest) = c :: decodeFrom none rest := by
  have hvalid : c.toNat < 0xD800 ∨ 0xDFFF < c.toNat ∧ c.toNat < 0x110000 := c.valid
  rw [bytesOf_eq]
  split_ifs with h1 h2 h3
  · show decodeFrom none (.byte c.toNat :: rest) = _
    rw [decodeFrom, decodeStep, startByte, leadByte, if_pos (by omega), Char.ofNat_toNat]
    rfl
  · show decodeFrom none (.byte _ :: .byte _ :: rest) = _
    rw [decodeFrom_lead _ (leadByte_two (by omega) h2), decodeFrom_last _ (by omega)]
    -- The bits of the bytes are put together to the number that they were taken from.
    have hbits : c.toNat / 64 * 64 + (c.toNat % 64 + 0x80 - 0x80) = c.toNat := by omega
    rw [hbits, Char.ofNat_toNat]
  · show decodeFrom none (.byte _ :: .byte _ :: .byte _ :: rest) = _
    obtain ⟨low, high, hlead, hbounds⟩ := leadByte_three (by omega) h3 (by omega)
    rw [decodeFrom_lead _ hlead, decodeFrom_next _ 0 hbounds, decodeFrom_last _ (by omega)]
    have hbits : (c.toNat / 4096 * 64 + (c.toNat / 64 % 64 + 0x80 - 0x80)) * 64
        + (c.toNat % 64 + 0x80 - 0x80) = c.toNat := by omega
    rw [hbits, Char.ofNat_toNat]
  · show decodeFrom none (.byte _ :: .byte _ :: .byte _ :: .byte _ :: rest) = _
    obtain ⟨low, high, hlead, hbounds⟩ := leadByte_four (n := c.toNat) (by omega) (by omega)
    rw [decodeFrom_lead _ hlead, decodeFrom_next _ 1 hbounds, decodeFrom_next _ 0 (by omega),
      decodeFrom_last _ (by omega)]
    have hbits : ((c.toNat / 262144 * 64 + (c.toNat / 4096 % 64 + 0x80 - 0x80)) * 64
        + (c.toNat / 64 % 64 + 0x80 - 0x80)) * 64 + (c.toNat % 64 + 0x80 - 0x80) = c.toNat := by
      omega
    rw [hbits, Char.ofNat_toNat]

/-- **Decoding undoes encoding.** -/
theorem decode_encode (cs : List Char) : decode ((encode cs).map .byte) = cs := by
  induction cs with
  | nil => rfl
  | cons c cs ih =>
    rw [encode_cons, List.map_append, decode, decodeFrom_bytesOf]
    exact congrArg (c :: ·) ih

/-! ## Escapes

An escape is a percent sign with two hexadecimal digits, which are free in their case. Letters,
digits and a few other characters are never escaped. -/

/-- The bytes that stand for themselves: ASCII letters, digits, and four other characters. -/
def isUnreserved (b : Nat) : Bool :=
  (48 ≤ b && b ≤ 57) || (65 ≤ b && b ≤ 90) || (97 ≤ b && b ≤ 122) || b == 45 || b == 46 ||
    b == 95 || b == 126

/-- Hexadecimal digits, in letters of any case. -/
def AreDigits (digit : Nat → Char) : Prop := ∀ n < 16, Json.hexValue? (digit n) = some n

/-- A byte as it is written: as itself, or as an escape. -/
def escapeByte (digit : Nat → Char) (b : Nat) : List Char :=
  if isUnreserved b then [Char.ofNat b] else ['%', digit (b / 16), digit (b % 16)]

def percentEncode (digit : Nat → Char) (cs : List Char) : List Char :=
  (encode cs).flatMap (escapeByte digit)

/-- The characters that are not escaped, by their numbers. -/
theorem isUnreserved_iff {b : Nat} : isUnreserved b = true ↔
    48 ≤ b ∧ b ≤ 57 ∨ 65 ≤ b ∧ b ≤ 90 ∨ 97 ≤ b ∧ b ≤ 122 ∨ b = 45 ∨ b = 46 ∨ b = 95 ∨ b = 126 := by
  simp only [isUnreserved, Bool.or_eq_true, Bool.and_eq_true, decide_eq_true_eq, beq_iff_eq,
    or_assoc]

/-- Such a character has the number of its byte. -/
theorem toNat_ofNat_of_isUnreserved {b : Nat} (h : isUnreserved b = true) :
    (Char.ofNat b).toNat = b := by
  rw [isUnreserved_iff] at h
  have hvalid : b.isValidChar := Or.inl (by omega)
  rw [Char.ofNat, dif_pos hvalid]
  rfl

theorem isUnreserved_of_hexValue? {c : Char} {n : Nat} (h : Json.hexValue? c = some n) :
    isUnreserved c.toNat = true := by
  rw [isUnreserved_iff]
  unfold Json.hexValue? at h
  dsimp only at h
  split_ifs at h <;> omega

section

variable {digit : Nat → Char} (hdigit : AreDigits digit)

include hdigit

theorem octets_escapeByte {b : Nat} (h : b < 256) (rest : List Char) :
    octets (escapeByte digit b ++ rest) = .byte b :: octets rest := by
  unfold escapeByte
  split
  · next hfree =>
    -- An unreserved character is no percent sign.
    have hnat := toNat_ofNat_of_isUnreserved hfree
    rw [isUnreserved_iff] at hfree
    have hpercent : Char.ofNat b ≠ '%' := by
      intro hsame
      rw [hsame] at hnat
      have hfixed : ('%' : Char).toNat = 37 := rfl
      omega
    show octets (Char.ofNat b :: rest) = _
    rw [octets.eq_3 _ _ fun _ _ _ hsame _ => hpercent hsame, hnat, if_pos (by omega)]
  · show octets ('%' :: digit (b / 16) :: digit (b % 16) :: rest) = _
    rw [octets.eq_2, hdigit _ (by omega), hdigit _ (by omega)]
    have hvalue : b / 16 * 16 + b % 16 = b := by omega
    exact congrArg (Octet.byte · :: octets rest) hvalue

/-- All bytes are read as they were before they were escaped. -/
theorem octets_flatMap_escapeByte {bytes : List Nat} (h : ∀ b ∈ bytes, b < 256) :
    octets (bytes.flatMap (escapeByte digit)) = bytes.map .byte := by
  induction bytes with
  | nil => rfl
  | cons b bytes ih =>
    rw [List.forall_mem_cons] at h
    rw [List.flatMap_cons, octets_escapeByte hdigit h.1, ih h.2, List.map_cons]

/-- **Percent decoding undoes percent encoding.** -/
theorem percentDecode_percentEncode (cs : List Char) :
    percentDecode (percentEncode digit cs) = cs := by
  have hbytes : ∀ b ∈ encode cs, b < 256 := fun _ => lt_of_mem_encode
  rw [percentDecode, percentEncode, octets_flatMap_escapeByte hdigit hbytes, decode_encode]

/-- Characters that are escaped do not occur in what is encoded. -/
theorem not_mem_percentEncode {c : Char} (hpercent : c ≠ '%')
    (hescaped : isUnreserved c.toNat = false) (cs : List Char) : c ∉ percentEncode digit cs := by
  intro hmem
  obtain ⟨b, hb, hc⟩ := List.mem_flatMap.mp hmem
  have hlt := lt_of_mem_encode hb
  -- A digit is not escaped, so the character is none.
  have hother : ∀ n < 16, c ≠ digit n := by
    rintro n hn rfl
    rw [isUnreserved_of_hexValue? (hdigit n hn)] at hescaped
    cases hescaped
  unfold escapeByte at hc
  split at hc
  · next hfree =>
    rw [List.mem_singleton.mp hc, toNat_ofNat_of_isUnreserved hfree, hfree] at hescaped
    cases hescaped
  · rcases List.mem_cons.mp hc with hsame | hc
    · exact hpercent hsame
    · rcases List.mem_cons.mp hc with hsame | hc
      · exact hother _ (by omega) hsame
      · exact hother _ (by omega) (List.mem_singleton.mp hc)

end

end Ramlify.Text
