import Ramlify.Json

/-!
# Ramlify — the parts of a written JSON text are read back

What stands between the brackets of a JSON text: blanks, quoted texts, whole numbers and words. Each
lemma says that the reader, put before a written part, gives the part and stops right behind it.

* **`skip_append`** — blanks are passed over.
* **`quoted_quote`** — a quoted text; escapes are taken back one by one.
* **`number_intText`** — a whole number, if what follows cannot belong to a number (`Ends`).
-/

namespace Ramlify.Json

/-! ## Blanks

Between the parts of a text stand blanks, which the reader skips before each part. -/

/-- Nothing but blank characters. -/
def Blank (cs : List Char) : Prop := ∀ c ∈ cs, isSpace c = true

/-- Blanks in front change nothing for a reader that skips them. -/
theorem skip_append {blanks : List Char} (h : Blank blanks) (cs : List Char) :
    skip (blanks ++ cs) = skip cs := by
  unfold skip
  induction blanks with
  | nil => rfl
  | cons c blanks ih =>
    rw [List.cons_append, List.dropWhile_cons_of_pos (h c List.mem_cons_self)]
    exact ih fun d hd => h d (List.mem_cons_of_mem _ hd)

/-- A character that is no blank stays where it is. -/
theorem skip_cons {c : Char} (h : isSpace c = false) (cs : List Char) :
    skip (c :: cs) = c :: cs :=
  List.dropWhile_cons_of_neg (by rw [h]; decide)

/-! ## Quoted text

A character is written as itself, by a letter behind a backslash or by its number. Each of these is
one piece for the reader, and the pieces are joined to characters again, pairs of numbers among
them; a control character is no half of such a pair. -/

/-- The part that a written character is read as: control characters without a letter of their own
are written by their number. -/
def pieceOf (c : Char) : Piece :=
  if c ∉ ['\n', '\r', '\t', '\x0c', '\x08'] ∧ c.toNat < 32 then .unit c.toNat else .char c

/-- A hexadecimal digit stands for the number it was made from. -/
theorem hexValue?_hexDigit : ∀ n < 16, hexValue? (hexDigit n) = some n := by
  decide

/-- Four digits of a number below 32, which takes only the last two of them. -/
theorem hexValue4?_hexDigit {n : Nat} (h : n < 32) :
    hexValue4? '0' '0' (hexDigit (n / 16)) (hexDigit (n % 16)) = some n := by
  unfold hexValue4?
  rw [hexValue?_hexDigit _ (by omega), hexValue?_hexDigit _ (by omega),
    show hexValue? '0' = some 0 from by decide]
  show some ((0 * 16 + 0) * 256 + n / 16 * 16 + n % 16) = some n
  rw [Option.some.injEq]
  omega

/-- A written character is read as its part. Something follows it, at least the closing quote. -/
theorem pieces_escape (start : List Char) (c : Char) {rest : List Char} (hrest : rest ≠ []) :
    pieces start (escape c ++ rest) = (do
      let (more, rest) ← pieces start rest
      .ok (pieceOf c :: more, rest)) := by
  by_cases hletter : c ∈ ['"', '\\', '\n', '\r', '\t', '\x0c', '\x08']
  · -- Characters with a letter of their own.
    simp only [List.mem_cons, List.not_mem_nil, or_false] at hletter
    rcases hletter with rfl | rfl | rfl | rfl | rfl | rfl | rfl <;> rfl
  · simp only [List.mem_cons, List.not_mem_nil, or_false, not_or] at hletter
    obtain ⟨hquote, hslash, hn, hr, ht, hf, hb⟩ := hletter
    by_cases hcontrol : c.toNat < 32
    · obtain ⟨next, more, rfl⟩ := List.exists_cons_of_ne_nil hrest
      have hpiece : pieceOf c = .unit c.toNat := by
        simp [pieceOf, hn, hr, ht, hf, hb, hcontrol]
      rw [hpiece]
      simp only [escape, hquote, hslash, hn, hr, ht, hf, hb, hcontrol, if_true, if_false,
        List.cons_append, List.nil_append]
      rw [pieces, hexValue4?_hexDigit hcontrol]
    · have hpiece : pieceOf c = .char c := by
        simp [pieceOf, hcontrol]
      rw [hpiece]
      simp only [escape, hquote, hslash, hn, hr, ht, hf, hb, hcontrol, if_false,
        List.cons_append, List.nil_append]
      rw [pieces]
      · rw [if_neg hcontrol]
      all_goals
        intros
        contradiction

/-- The written characters of a text are read as their pieces, up to the closing quote. -/
theorem pieces_flatMap_escape (start : List Char) (cs rest : List Char) :
    pieces start (cs.flatMap escape ++ '"' :: rest) = .ok (cs.map pieceOf, rest) := by
  induction cs with
  | nil => rfl
  | cons c cs ih =>
    -- At least the closing quote follows, whatever is left of the text.
    rw [List.flatMap_cons, List.append_assoc, pieces_escape start c (by simp), ih]
    rfl

/-- A control character is the character of its number. -/
theorem unitChar_of_lt {c : Char} (h : c.toNat < 32) : unitChar c.toNat = c := by
  unfold unitChar isHighHalf isLowHalf
  rw [if_neg (by simp; omega), Char.ofNat_toNat]

/-- A piece of a written character is joined with nothing behind it: neither of its two forms is
half of a pair. -/
theorem joinPieces_pieceOf (c : Char) (rest : List Piece) :
    joinPieces (pieceOf c :: rest) = c :: joinPieces rest := by
  unfold pieceOf
  split
  · next hcontrol =>
    have hunit := unitChar_of_lt hcontrol.2
    have hhigh : isHighHalf c.toNat = false := by
      unfold isHighHalf
      simp
      omega
    -- A control character is no half of a pair, so what follows does not matter.
    cases rest with
    | nil => simp only [joinPieces, hunit]
    | cons piece rest =>
      cases piece with
      | char d => simp only [joinPieces, hunit]
      | unit l =>
        rw [joinPieces, hhigh, hunit]
        rfl
  · rw [joinPieces]

/-- The pieces of a text are joined to the text. -/
theorem joinPieces_map_pieceOf (cs : List Char) : joinPieces (cs.map pieceOf) = cs := by
  induction cs with
  | nil => rfl
  | cons c cs ih => rw [List.map_cons, joinPieces_pieceOf, ih]

/-- **A quoted text is read back.** -/
theorem quoted_quote (start : List Char) (s : String) (rest : List Char) :
    quoted start (s.toList.flatMap escape ++ '"' :: rest) = .ok (s, rest) := by
  unfold quoted
  rw [pieces_flatMap_escape]
  show Except.ok (String.ofList (joinPieces (s.toList.map pieceOf)), rest) = _
  rw [joinPieces_map_pieceOf, String.ofList_toList]

/-! ## Whole numbers

A number goes on as long as digits, points and exponents stand there. It is read back where none of
these can follow. -/

/-- What follows a value in a text: nothing, a blank, a comma or a closing bracket. None of these
goes on with a number. -/
def Ends : List Char → Prop
  | [] => True
  | c :: _ => isSpace c = true ∨ c = ',' ∨ c = ']' ∨ c = '}'

theorem Ends.not_digit {rest : List Char} (h : Ends rest) :
    ∀ c ∈ rest.head?, isDigit c = false := by
  intro c hc
  cases rest with
  | nil => cases hc
  | cons d rest =>
    cases hc
    rcases h with hspace | rfl | rfl | rfl
    · simp only [isSpace, Bool.or_eq_true, beq_iff_eq] at hspace
      rcases hspace with ((rfl | rfl) | rfl) | rfl <;> decide
    all_goals decide

theorem Ends.fraction? {rest : List Char} (h : Ends rest) : Json.fraction? rest = none := by
  cases rest with
  | nil => rfl
  | cons c rest =>
    unfold Json.fraction?
    split
    · next heq =>
      cases heq
      exact absurd h (by simp [Ends, isSpace])
    · rfl

theorem Ends.exponent? {rest : List Char} (h : Ends rest) : Json.exponent? rest = none := by
  cases rest with
  | nil => rfl
  | cons c rest =>
    unfold Json.exponent?
    refine if_neg ?_
    rintro (rfl | rfl)
    · exact absurd h (by simp [Ends, isSpace])
    · exact absurd h (by simp [Ends, isSpace])

/-- The digits of a number are digits for the reader. -/
theorem isDigit_of_mem_toDigits {n : Nat} {c : Char} (h : c ∈ Nat.toDigits 10 n) :
    isDigit c = true := by
  have hdigit := Nat.isDigit_of_mem_toDigits (by decide) (by decide) h
  unfold Char.isDigit at hdigit
  simpa [isDigit, Char.le_def] using hdigit

/-- The digits of a number stand for the number. -/
theorem natOfDigits_toDigits (n : Nat) : natOfDigits (Nat.toDigits 10 n) = n := by
  have h : natOfDigits (Nat.toDigits 10 n) = Nat.ofDigitChars 10 (Nat.toDigits 10 n) 0 := by
    unfold natOfDigits
    rw [Nat.ofDigitChars_eq_foldl]
    simp only [Nat.mul_comm]
    rfl
  rw [h, Nat.ofDigitChars_ten_toDigits]

/-- The first digit is a zero for zero only. -/
theorem head_toDigits {n : Nat} : ∀ {cs : List Char}, Nat.toDigits 10 n = '0' :: cs → cs = [] := by
  induction n using Nat.strongRecOn with
  | ind n ih =>
    intro cs h
    rw [Nat.toDigits_eq_if (by decide)] at h
    split at h
    · exact (List.cons.inj h).2.symm
    · next hbase =>
      -- A zero in front of other digits would be in front of those of `n / 10`, which is then zero.
      obtain ⟨d, ds, hds⟩ :=
        List.exists_cons_of_ne_nil (Nat.toDigits_ne_nil (n := n / 10) (b := 10))
      rw [hds, List.cons_append] at h
      cases h
      have hzero := ih (n / 10) (by omega) hds
      subst hzero
      have hvalue := natOfDigits_toDigits (n / 10)
      rw [hds] at hvalue
      have : natOfDigits ['0'] = 0 := by decide
      omega

/-- The reader takes all digits of a number as its whole part, and nothing of what follows: a
leading zero is taken alone, but only zero has one. -/
theorem wholeDigits_toDigits (n : Nat) {rest : List Char}
    (hrest : ∀ c ∈ rest.head?, isDigit c = false) :
    wholeDigits (Nat.toDigits 10 n ++ rest) = (Nat.toDigits 10 n, rest) := by
  obtain ⟨d, ds, hds⟩ := List.exists_cons_of_ne_nil (Nat.toDigits_ne_nil (n := n) (b := 10))
  have hall : ∀ c ∈ d :: ds, isDigit c = true := fun c hc =>
    isDigit_of_mem_toDigits (by rw [hds]; exact hc)
  rw [hds, List.cons_append, wholeDigits]
  split
  · -- A number that begins with a zero ends behind it.
    next hzero =>
    subst hzero
    rw [head_toDigits hds, List.nil_append]
  · rw [if_pos (hall d List.mem_cons_self)]
    have hmore : ∀ c ∈ ds, isDigit c = true := fun c hc => hall c (List.mem_cons_of_mem _ hc)
    have htake : rest.takeWhile isDigit = [] := by
      cases rest with
      | nil => rfl
      | cons c rest =>
        exact List.takeWhile_cons_of_neg (by rw [hrest c rfl]; decide)
    have hdrop : rest.dropWhile isDigit = rest := by
      cases rest with
      | nil => rfl
      | cons c rest =>
        exact List.dropWhile_cons_of_neg (by rw [hrest c rfl]; decide)
    rw [List.takeWhile_append_of_pos hmore, List.dropWhile_append_of_pos hmore, htake, hdrop,
      List.append_nil]

/-- Digits that are not too many are a whole number, whatever its sign. -/
theorem unsigned_toDigits (start : List Char) (negative : Bool) {n : Nat} {rest : List Char}
    (hdigits : (Nat.toDigits 10 n).length ≤ maxDigits) (hrest : Ends rest) :
    unsigned start negative (Nat.toDigits 10 n ++ rest)
      = .ok (.int (if negative then -(n : Int) else n), rest) := by
  unfold unsigned
  rw [wholeDigits_toDigits n hrest.not_digit]
  obtain ⟨d, ds, hds⟩ := List.exists_cons_of_ne_nil (Nat.toDigits_ne_nil (n := n) (b := 10))
  have hvalue := natOfDigits_toDigits n
  rw [hds] at hdigits hvalue ⊢
  simp only [hrest.fraction?, hrest.exponent?, Option.getD_none, Option.isSome_none,
    Bool.or_false, hvalue]
  rw [if_neg (by decide), if_neg (by omega)]

/-- The first character of a whole number is its sign or a digit. -/
theorem head_intText (i : Int) : ∃ c cs, intText i = c :: cs ∧ (c = '-' ∨ isDigit c = true) := by
  unfold intText
  split
  · exact ⟨'-', _, rfl, Or.inl rfl⟩
  · obtain ⟨d, ds, hds⟩ :=
      List.exists_cons_of_ne_nil (Nat.toDigits_ne_nil (n := i.natAbs) (b := 10))
    exact ⟨d, ds, hds, Or.inr (isDigit_of_mem_toDigits (by rw [hds]; exact List.mem_cons_self))⟩

/-- **A whole number is read back.** -/
theorem number_intText {i : Int} {rest : List Char}
    (hdigits : (Nat.toDigits 10 i.natAbs).length ≤ maxDigits) (hrest : Ends rest) :
    number (intText i ++ rest) = .ok (.int i, rest) := by
  unfold intText
  split
  · next hneg =>
    rw [List.cons_append, number, unsigned_toDigits _ _ hdigits hrest, if_pos rfl]
    have : -(i.natAbs : Int) = i := by omega
    rw [this]
  · next hpos =>
    -- Without a sign the reader goes to the digits directly, since the first character is one of
    -- them.
    have hplain : number (Nat.toDigits 10 i.natAbs ++ rest)
        = unsigned (Nat.toDigits 10 i.natAbs ++ rest) false (Nat.toDigits 10 i.natAbs ++ rest) := by
      obtain ⟨d, ds, hds⟩ :=
        List.exists_cons_of_ne_nil (Nat.toDigits_ne_nil (n := i.natAbs) (b := 10))
      have hd : isDigit d = true :=
        isDigit_of_mem_toDigits (n := i.natAbs) (by rw [hds]; exact List.mem_cons_self)
      rw [hds, List.cons_append]
      unfold number
      split
      · next heq =>
        cases heq
        exact absurd hd (by decide)
      · rfl
    rw [hplain, unsigned_toDigits _ _ hdigits hrest, if_neg (by decide)]
    have : (i.natAbs : Int) = i := by omega
    rw [this]

/-! ## Words

Words are tried before numbers. -/

theorem atom_null (rest : List Char) : atom ("null".toList ++ rest) = .ok (.null, rest) := by
  simp [atom, words, after?]

/-- The words for the two truth values are read back. -/
theorem atom_bool (b : Bool) (rest : List Char) :
    atom ((if b then "true".toList else "false".toList) ++ rest) = .ok (.bool b, rest) := by
  cases b <;> simp [atom, words, after?]

/-- No word begins like a whole number: after a sign stands a digit. -/
theorem atom_intText {i : Int} {rest : List Char}
    (hdigits : (Nat.toDigits 10 i.natAbs).length ≤ maxDigits) (hrest : Ends rest) :
    atom (intText i ++ rest) = .ok (.int i, rest) := by
  have hnone : (words.findSome? fun word =>
      (after? word.1 (intText i ++ rest)).map fun rest => (word.2, rest)) = none := by
    obtain ⟨d, ds, hds⟩ :=
      List.exists_cons_of_ne_nil (Nat.toDigits_ne_nil (n := i.natAbs) (b := 10))
    have hd : isDigit d = true :=
      isDigit_of_mem_toDigits (n := i.natAbs) (by rw [hds]; exact List.mem_cons_self)
    -- Each word begins with a letter, or with a sign and a letter behind it.
    have hne : ∀ c, isDigit c = false → c ≠ d := by
      rintro c hc rfl
      rw [hd] at hc
      cases hc
    have hI := hne 'I' (by decide)
    unfold intText
    split
    · simp [words, after?, hds, hI]
    · simp [words, after?, hds, hI, hne 'n' (by decide), hne 't' (by decide), hne 'f' (by decide),
        hne 'N' (by decide), hne '-' (by decide)]
  unfold atom
  rw [hnone]
  exact number_intText hdigits hrest

end Ramlify.Json
