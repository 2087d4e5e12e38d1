import Ramlify.Unicode.Lowercase

/-!
# Ramlify — what lower case leaves alone

Small letters lie above the signs, the digits and the capitals of ASCII. So the lower-case form of a
text has no capital of ASCII, and a sign of ASCII stands in it only where it stood before.
-/

namespace Ramlify.Unicode

/-- The last sign of ASCII before the small letters. -/
def lastSign : Nat := 96

/-- No run of capitals leads to a sign, a digit or a capital of ASCII, nor out of Unicode. -/
theorem lowercaseRuns_above : ∀ run ∈ lowercaseRuns, (lastSign : Int) < run.1 + run.2.2.2
    ∧ (run.2.1 + run.2.2.2 < 0xD800
      ∨ 0xDFFF < run.1 + run.2.2.2 ∧ run.2.1 + run.2.2.2 < 0x110000) := by
  decide +kernel

/-- A character made from a number has that number. -/
theorem toNat_ofNat {n : Nat} (h : n.isValidChar) : (Char.ofNat n).toNat = n := by
  rw [Char.ofNat, dif_pos h]
  rfl

/-- A character becomes a sign, a digit or a capital of ASCII only if it is one already, and none
becomes a capital. -/
theorem lowerChar_eq_of_le {c : Char} (h : (lowerChar c).toNat ≤ lastSign) :
    lowerChar c = c ∧ ¬ (65 ≤ c.toNat ∧ c.toNat ≤ 90) := by
  unfold lowerChar at h ⊢
  split at h
  · next run hfind =>
    exfalso
    obtain ⟨habove, hvalid⟩ := lowercaseRuns_above run (List.mem_of_find?_eq_some hfind)
    have hrun := List.find?_some hfind
    simp only [Bool.and_eq_true, decide_eq_true_eq] at hrun
    obtain ⟨⟨hfirst, hlast⟩, _⟩ := hrun
    unfold lastSign at habove h
    rw [toNat_ofNat] at h
    · omega
    · rw [Nat.isValidChar]
      omega
  · next hfind =>
    refine ⟨rfl, fun hcapital => ?_⟩
    -- The first run holds the capitals of ASCII.
    have hfirst := List.find?_eq_none.mp hfind (65, 90, 1, 32) List.mem_cons_self
    simp [hcapital.1, hcapital.2, Nat.mod_one] at hfirst

/-- A sign, a digit or a capital of ASCII in a lower-case text was there before, and is no
capital. -/
theorem mem_lowerChars {c : Char} (hc : c.toNat ≤ lastSign) (cs : List Char) :
    ∀ before : List Char, c ∈ lowerChars before cs →
      c ∈ cs ∧ ¬ (65 ≤ c.toNat ∧ c.toNat ≤ 90) := by
  -- What precedes the text only decides which small sigma is written.
  induction cs with
  | nil =>
    intro before h
    cases h
  | cons d ds ih =>
    intro before h
    rw [lowerChars] at h
    rcases List.mem_append.mp h with h | h
    · split at h
      · rw [List.mem_singleton] at h
        subst h
        exfalso
        revert hc
        split <;> decide
      · split at h
        · exfalso
          rcases List.mem_cons.mp h with rfl | h
          · exact absurd hc (by decide)
          · rw [List.mem_singleton.mp h] at hc
            exact absurd hc (by decide)
        · rw [List.mem_singleton] at h
          subst h
          obtain ⟨heq, hcapital⟩ := lowerChar_eq_of_le hc
          rw [heq]
          exact ⟨List.mem_cons_self, hcapital⟩
    · obtain ⟨hmem, hcapital⟩ := ih (d :: before) h
      exact ⟨List.mem_cons_of_mem _ hmem, hcapital⟩

/-- A text with a capital of ASCII is not in lower case. -/
theorem lower_ne {name : String} (h : ∃ c ∈ name.toList, 65 ≤ c.toNat ∧ c.toNat ≤ 90)
    (s : String) : lower s ≠ name := by
  rintro rfl
  obtain ⟨c, hc, hcapital⟩ := h
  rw [lower, String.toList_ofList] at hc
  have hsign : c.toNat ≤ lastSign := by
    unfold lastSign
    omega
  exact (mem_lowerChars hsign s.toList [] hc).2 hcapital

/-- A lower-case text that begins with a slash is that of a text that does. -/
theorem startsWith_slash_of_lower {s : String} (h : (lower s).startsWith "/" = true) :
    s.startsWith "/" = true := by
  rw [String.startsWith_string_iff] at h ⊢
  obtain ⟨rest, hrest⟩ := h
  simp only [lower, String.toList_ofList] at hrest
  cases hs : s.toList with
  | nil =>
    rw [hs] at hrest
    cases hrest
  | cons c cs =>
    rw [hs, lowerChars] at hrest
    have hslash : c = '/' := by
      -- The two letters with rules of their own do not become a slash.
      split at hrest
      · exfalso
        have hhead := (List.cons.inj hrest).1
        revert hhead
        split <;> decide
      · split at hrest
        · exact absurd (List.cons.inj hrest).1 (by decide)
        · have hhead : '/' = lowerChar c := (List.cons.inj hrest).1
          have hsame := (lowerChar_eq_of_le (c := c) (by rw [← hhead]; decide)).1
          rw [← hsame, ← hhead]
    exact ⟨cs, by rw [hslash]; rfl⟩

end Ramlify.Unicode
