import Ramlify.Proofs.Postman.HeaderBlock

/-!
# Ramlify — which braces of a text are rewritten

A span of a text is a pair of opening double braces with a pair of closing ones behind it on the
same line. Of all spans one is rewritten: it begins where the first span begins, and it ends where
the last one of those that begin there ends. So of several variables on a line the outermost braces
are rewritten and all that stands between them stays.

* **`closeLast_spec`** — the closing braces that are found are the last ones of the line.
* **`bracketChars_rewritten`** — the scan rewrites the first span, and changes nothing without one.
* **`outermost_rewritten`** — what a text becomes.
-/

namespace Ramlify.Postman

/-! ## Spans

A span is told by two positions. Taking the first character off a text moves all spans by one,
except one that begins at that character; by this the spans are followed along the scan. -/

/-- A character that stands at a position and at the next one. -/
def Doubled (c : Char) (cs : List Char) (i : Nat) : Prop :=
  cs[i]? = some c ∧ cs[i + 1]? = some c

/-- Closing double braces on the first line of a text. -/
structure Closing (cs : List Char) (j : Nat) : Prop where
  braces : Doubled '}' cs j
  sameLine : ∀ k < j, cs[k]? ≠ some '\n'

/-- Opening and closing double braces that do not overlap, without a line break between them. -/
structure Span (cs : List Char) (i j : Nat) : Prop where
  opening : Doubled '{' cs i
  closing : Doubled '}' cs j
  apart : i + 2 ≤ j
  sameLine : ∀ k, i + 2 ≤ k → k < j → cs[k]? ≠ some '\n'

/-- The span that begins first, and ends last of those that begin there. -/
structure FirstSpan (cs : List Char) (i j : Nat) : Prop extends Span cs i j where
  first : ∀ i' j', Span cs i' j' → i ≤ i'
  last : ∀ j', Span cs i j' → j' ≤ j

/-- A text with a character put at a position and at the next one. -/
def doubledAt (c : Char) (i : Nat) (cs : List Char) : List Char := (cs.set i c).set (i + 1) c

/-- A text with angle brackets for the braces at two positions. -/
def bracketedAt (i j : Nat) (cs : List Char) : List Char :=
  doubledAt '>' j (doubledAt '<' i cs)

section

variable {c : Char} {cs : List Char} {i j : Nat}

/-- Closing braces behind the first character. -/
theorem closing_succ : Closing (c :: cs) (j + 1) ↔ c ≠ '\n' ∧ Closing cs j := by
  constructor
  · intro h
    refine ⟨fun hc => h.sameLine 0 (Nat.succ_pos j) (congrArg some hc), h.braces, fun k hk => ?_⟩
    exact h.sameLine (k + 1) (Nat.succ_lt_succ hk)
  · rintro ⟨hc, h⟩
    refine ⟨h.braces, fun k hk => ?_⟩
    cases k with
    | zero => exact fun heq => hc (Option.some.inj heq)
    | succ k => exact h.sameLine k (Nat.lt_of_succ_lt_succ hk)

theorem span_succ : Span (c :: cs) (i + 1) (j + 1) ↔ Span cs i j := by
  constructor
  · intro h
    refine ⟨h.opening, h.closing, Nat.le_of_succ_le_succ h.apart, fun k hik hkj => ?_⟩
    exact h.sameLine (k + 1) (by omega) (by omega)
  · intro h
    refine ⟨h.opening, h.closing, Nat.succ_le_succ h.apart, fun k hik hkj => ?_⟩
    obtain ⟨k, rfl⟩ : ∃ n, k = n + 1 := ⟨k - 1, by omega⟩
    exact h.sameLine k (by omega) (by omega)

theorem span_zero : Span (c :: cs) 0 j
    ↔ c = '{' ∧ ∃ rest k, cs = '{' :: rest ∧ j = k + 2 ∧ Closing rest k := by
  constructor
  · intro h
    obtain ⟨k, rfl⟩ : ∃ k, j = k + 2 := ⟨j - 2, by have := h.apart; omega⟩
    obtain ⟨hfirst, hsecond⟩ := h.opening
    cases cs with
    | nil => cases hsecond
    | cons d rest =>
      obtain rfl : d = '{' := Option.some.inj hsecond
      refine ⟨Option.some.inj hfirst, rest, k, rfl, rfl, h.closing, fun n hn => ?_⟩
      exact h.sameLine (n + 2) (by omega) (by omega)
  · -- The two braces are on one line with what follows them.
    rintro ⟨rfl, rest, k, rfl, rfl, h⟩
    refine ⟨⟨rfl, rfl⟩, h.braces, Nat.le_add_left _ _, fun n hn hnk => ?_⟩
    obtain ⟨n, rfl⟩ : ∃ m, n = m + 2 := ⟨n - 2, by omega⟩
    exact h.sameLine n (by omega)

/-- Where no span begins at the first character, spans are those behind it. -/
theorem FirstSpan.cons (h : FirstSpan cs i j) (hnone : ∀ k, ¬ Span (c :: cs) 0 k) :
    FirstSpan (c :: cs) (i + 1) (j + 1) where
  toSpan := span_succ.mpr h.toSpan
  first := by
    intro i' j' hspan
    cases i' with
    | zero => exact absurd hspan (hnone j')
    | succ i' =>
      obtain ⟨j', rfl⟩ : ∃ k, j' = k + 1 := ⟨j' - 1, by have := hspan.apart; omega⟩
      exact Nat.succ_le_succ (h.first _ _ (span_succ.mp hspan))
  last := by
    intro j' hspan
    obtain ⟨j', rfl⟩ : ∃ k, j' = k + 1 := ⟨j' - 1, by have := hspan.apart; omega⟩
    exact Nat.succ_le_succ (h.last _ (span_succ.mp hspan))

end

/-! ## The scan

The program goes through the text once. At opening braces it searches the rest of the line for
closing ones, and without any it goes on behind the first brace. -/

/-- What searching the closing braces of a line can give: nothing if there are none, else the text
with the last ones rewritten. -/
def ClosesLast (cs : List Char) : Option (List Char) → Prop
  | none => ∀ j, ¬ Closing cs j
  | some closed => ∃ j, Closing cs j ∧ (∀ j', Closing cs j' → j' ≤ j) ∧ closed = doubledAt '>' j cs

/-- **The closing braces that are found are the last ones of the line.** -/
theorem closeLast_spec (cs : List Char) : ClosesLast cs (closeLast cs) := by
  fun_induction closeLast cs with
  | case1 =>
    intro j h
    cases h.braces.1
  | case2 rest =>
    intro j h
    cases j with
    | zero => exact absurd (Option.some.inj h.braces.1) (by decide)
    | succ j => exact (closing_succ.mp h).1 rfl
  | case3 c rest hline later hlater ih =>
    -- There are closing braces behind the character, so any before them do not count.
    have hc : c ≠ '\n' := hline
    rw [hlater] at ih
    obtain ⟨j, hj, hlast, rfl⟩ := ih
    refine ⟨j + 1, closing_succ.mpr ⟨hc, hj⟩, fun j' hj' => ?_, rfl⟩
    cases j' with
    | zero => exact Nat.zero_le _
    | succ j' => exact Nat.succ_le_succ (hlast j' (closing_succ.mp hj').2)
  | case4 rest hline hnone ih =>
    rw [hnone] at ih
    refine ⟨0, ⟨⟨rfl, rfl⟩, fun k hk => absurd hk (Nat.not_lt_zero k)⟩, fun j hj => ?_, rfl⟩
    cases j with
    | zero => exact Nat.le_refl 0
    | succ j => exact absurd (closing_succ.mp hj).2 (ih j)
  | case5 c rest hline hnone hbraces ih =>
    rw [hnone] at ih
    intro j hj
    cases j with
    | zero =>
      cases rest with
      | nil => cases hj.braces.2
      | cons d rest =>
        exact hbraces rest (Option.some.inj hj.braces.1)
          (by rw [show d = '}' from Option.some.inj hj.braces.2])
    | succ j => exact ih j (closing_succ.mp hj).2

/-- A text that becomes another by rewriting its first span, or stays if it has none. -/
def Rewritten (cs result : List Char) : Prop :=
  (∃ i j, FirstSpan cs i j ∧ result = bracketedAt i j cs) ∨ ((∀ i j, ¬ Span cs i j) ∧ result = cs)

/-- A character at which no span begins stays. -/
theorem Rewritten.cons {c : Char} {cs result : List Char} (h : Rewritten cs result)
    (hnone : ∀ k, ¬ Span (c :: cs) 0 k) : Rewritten (c :: cs) (c :: result) := by
  rcases h with ⟨i, j, hfirst, rfl⟩ | ⟨hspans, rfl⟩
  · exact Or.inl ⟨i + 1, j + 1, hfirst.cons hnone, rfl⟩
  · refine Or.inr ⟨fun i j hspan => ?_, rfl⟩
    cases i with
    | zero => exact hnone j hspan
    | succ i =>
      obtain ⟨j, rfl⟩ : ∃ k, j = k + 1 := ⟨j - 1, by have := hspan.apart; omega⟩
      exact hspans i j (span_succ.mp hspan)

/-- **The scan rewrites the first span.** -/
theorem bracketChars_rewritten (cs : List Char) : Rewritten cs (bracketChars cs) := by
  fun_induction bracketChars cs with
  -- There are closing braces behind the opening ones: this is the first span, and it ends at the
  -- last of them.
  | case1 rest closed hclosed =>
    have hspec := closeLast_spec rest
    rw [hclosed] at hspec
    obtain ⟨k, hk, hlast, rfl⟩ := hspec
    refine Or.inl ⟨0, k + 2, ⟨span_zero.mpr ⟨rfl, rest, k, rfl, rfl, hk⟩,
      fun i' _ _ => Nat.zero_le i', fun j' hspan => ?_⟩, rfl⟩
    obtain ⟨_, _, k', heq, rfl, hk'⟩ := span_zero.mp hspan
    cases heq
    exact Nat.add_le_add_right (hlast k' hk') 2
  -- Braces without closing ones on their line begin no span.
  | case2 rest hnone ih =>
    have hspec := closeLast_spec rest
    rw [hnone] at hspec
    refine ih.cons fun k hspan => ?_
    obtain ⟨_, _, k', heq, rfl, hk'⟩ := span_zero.mp hspan
    cases heq
    exact hspec k' hk'
  -- No braces stand here, so no span begins.
  | case3 c rest hbraces ih =>
    refine ih.cons fun k hspan => ?_
    obtain ⟨rfl, rest', _, rfl, _⟩ := span_zero.mp hspan
    exact hbraces rest' rfl rfl
  | case4 =>
    refine Or.inr ⟨fun i j hspan => ?_, rfl⟩
    cases hspan.opening.1

/-! ## Several variables on a line

The outermost braces of a line with several variables, told by the text around them and not by
positions. -/

/-- The rest of the line that a text begins with. -/
def restOfLine (cs : List Char) : List Char := cs.takeWhile (· != '\n')

/-- Closing braces of a line are in the rest of the line. -/
theorem Closing.mem_restOfLine {cs : List Char} {j : Nat} (h : Closing cs j) :
    '}' ∈ restOfLine cs := by
  induction cs generalizing j with
  | nil => cases h.braces.1
  | cons c cs ih =>
    unfold restOfLine
    cases j with
    | zero =>
      obtain rfl : c = '}' := Option.some.inj h.braces.1
      rw [List.takeWhile_cons_of_pos (by decide)]
      exact List.mem_cons_self
    | succ j =>
      obtain ⟨hc, hbehind⟩ := closing_succ.mp h
      rw [List.takeWhile_cons_of_pos (by simpa using hc)]
      exact List.mem_cons_of_mem _ (ih hbehind)

/-- Without a closing brace on the line there is nothing to rewrite. -/
theorem closeLast_eq_none {cs : List Char} (h : '}' ∉ restOfLine cs) : closeLast cs = none := by
  have hspec := closeLast_spec cs
  cases hclosed : closeLast cs with
  | none => rfl
  | some closed =>
    rw [hclosed] at hspec
    obtain ⟨j, hj, _⟩ := hspec
    exact absurd hj.mem_restOfLine h

/-- Closing braces behind a character of their line are the ones that are found. -/
theorem closeLast_cons {c : Char} {rest closed : List Char} (hc : c ≠ '\n')
    (h : closeLast rest = some closed) : closeLast (c :: rest) = some (c :: closed) := by
  unfold closeLast
  split
  · next heq => cases heq
  · next heq => exact absurd (List.cons.inj heq).1 hc
  · next heq =>
    cases heq
    rw [h]

/-- Closing braces with none behind them on their line are the last ones. -/
theorem closeLast_braces {after : List Char} (h : '}' ∉ restOfLine after) :
    closeLast ('}' :: '}' :: after) = some ('>' :: '>' :: after) := by
  have hbehind : closeLast ('}' :: after) = none := by
    rw [closeLast, closeLast_eq_none h]
    · decide
    · intro rest _ hafter
      rw [hafter] at h
      exact h List.mem_cons_self
  rw [closeLast, hbehind]

/-- What stands before the last closing braces of a line stays, variables included. -/
theorem closeLast_append {inner after : List Char} (hinner : '\n' ∉ inner)
    (hafter : '}' ∉ restOfLine after) :
    closeLast (inner ++ '}' :: '}' :: after) = some (inner ++ '>' :: '>' :: after) := by
  induction inner with
  | nil => exact closeLast_braces hafter
  | cons c inner ih =>
    rw [List.mem_cons, not_or] at hinner
    exact closeLast_cons (Ne.symm hinner.1) (ih hinner.2)

/-- What stands before the first opening brace stays. -/
theorem bracketChars_append {before : List Char} (h : '{' ∉ before) (cs : List Char) :
    bracketChars (before ++ cs) = before ++ bracketChars cs := by
  induction before with
  | nil => rfl
  | cons c before ih =>
    rw [List.mem_cons, not_or] at h
    rw [List.cons_append, bracketChars, ih h.2, List.cons_append]
    intro rest hc
    exact absurd hc.symm h.1

/-- **Of several variables on a line the outermost braces are rewritten.** -/
theorem bracketChars_outermost {before inner after : List Char} (hbefore : '{' ∉ before)
    (hinner : '\n' ∉ inner) (hafter : '}' ∉ restOfLine after) :
    bracketChars (before ++ '{' :: '{' :: (inner ++ '}' :: '}' :: after))
      = before ++ '<' :: '<' :: (inner ++ '>' :: '>' :: after) := by
  rw [bracketChars_append hbefore, bracketChars, closeLast_append hinner hafter]

example : bracketVariable "\x7b\x7ba\x7d\x7d/\x7b\x7bb\x7d\x7d" = "<<a\x7d\x7d/\x7b\x7bb>>" := by
  decide

/-! ## What a text becomes

Both views together, for the default that a request gives. -/

/-- **What a text becomes.** If it has a span, the braces of the first one are replaced by angle
brackets, and otherwise the text stays. Its length stays in any case, and where several variables
stand on a line the braces between the outermost ones stay. -/
theorem outermost_rewritten {s : String} (hs : s ≠ "") :
    ∃ t, defaultOfValue (.str s) = .ok (.str t)
      ∧ ((∃ i j, Span s.toList i j) →
          ∃ i j, FirstSpan s.toList i j ∧ t.toList = bracketedAt i j s.toList)
      ∧ ((∀ i j, ¬ Span s.toList i j) → t = s)
      ∧ t.length = s.length
      ∧ ∀ before inner after, '{' ∉ before → '\n' ∉ inner → '}' ∉ restOfLine after →
          s.toList = before ++ '{' :: '{' :: (inner ++ '}' :: '}' :: after) →
          t.toList = before ++ '<' :: '<' :: (inner ++ '>' :: '>' :: after) := by
  have hletters : s.toList ≠ [] := fun hnil => hs (String.toList_eq_nil_iff.mp hnil)
  have hdefault : defaultOfValue (.str s) = .ok (.str (bracketVariable s)) := by
    rw [defaultOfValue, if_neg (by simpa [Value.isVacant] using hs), defaultOf_of_ne_nil hletters]
    rfl
  have hresult : (bracketVariable s).toList = bracketChars s.toList := String.toList_ofList
  -- The scan either rewrote the first span or there is none, which settles the first two parts; the
  -- length is kept in both cases.
  refine ⟨_, hdefault, fun hspan => ?_, fun hnone => ?_, ?_, ?_⟩
  · rw [hresult]
    rcases bracketChars_rewritten s.toList with hfirst | ⟨hnone, _⟩
    · exact hfirst
    · obtain ⟨i, j, hspan⟩ := hspan
      exact absurd hspan (hnone i j)
  · rcases bracketChars_rewritten s.toList with ⟨i, j, hfirst, _⟩ | ⟨_, hsame⟩
    · exact absurd hfirst.toSpan (hnone i j)
    · rw [bracketVariable, hsame, String.ofList_toList]
  · rw [← String.length_toList, hresult, length_bracketChars, String.length_toList]
  · intro before inner after hbefore hinner hafter htext
    rw [hresult, htext, bracketChars_outermost hbefore hinner hafter]

/-- Opening braces without closing ones on their line, and two variables in runs of three braces on
the next one. -/
def bracedText : String := "\x7b\x7bx\n\x7b\x7b\x7ba\x7d\x7d/\x7b\x7bb\x7d\x7d\x7dc"

/-- The braces on the first line stay. On the second line the first two opening braces and the last
two closing ones are rewritten. -/
theorem outermost_rewritten_braced :
    bracedText ≠ "" ∧ ∃ t i j, defaultOfValue (.str bracedText) = .ok (.str t)
      ∧ FirstSpan bracedText.toList i j ∧ t.toList = bracketedAt i j bracedText.toList
      ∧ t.length = bracedText.length
      ∧ t = "\x7b\x7bx\n<<\x7ba\x7d\x7d/\x7b\x7bb\x7d>>c" := by
  have hgiven : bracedText ≠ "" := by decide
  have hline : ∀ k < 15, 6 ≤ k → bracedText.toList[k]? ≠ some '\n' := by decide
  have hspan : Span bracedText.toList 4 15 :=
    ⟨⟨by decide, by decide⟩, ⟨by decide, by decide⟩, by decide, fun k hk hk' => hline k hk' hk⟩
  obtain ⟨t, ht, hfirst, _, hlength, _⟩ := outermost_rewritten hgiven
  obtain ⟨i, j, hij, hbrackets⟩ := hfirst ⟨4, 15, hspan⟩
  refine ⟨hgiven, t, i, j, ht, hij, hbrackets, hlength, ?_⟩
  have hvalue : defaultOfValue (.str bracedText)
      = .ok (.str "\x7b\x7bx\n<<\x7ba\x7d\x7d/\x7b\x7bb\x7d>>c") := by rfl
  rw [hvalue] at ht
  exact (Value.str.inj (Except.ok.inj ht)).symm

end Ramlify.Postman
