import Ramlify.Proofs.Raml.DefinitionParts
import Ramlify.Proofs.Yaml.Pieces
import Ramlify.Raml.Exporter

/-!
# Ramlify — which quotes are taken away

Quotes around marks of files are looked for in the whole document, not scalar by scalar. A scalar
that is such a mark loses its quotes, unless there are quotes within it; any other scalar stays as
it is, unless it has a quote with a mark right after it and there is another quote later on.

* **`unquote_scalar_iff`** — what has to be true of one scalar.
* **`document_unquoted`** — what has to be true of all of them together.
-/

namespace Ramlify.Raml

open Yaml (Piece HasText Laid Stops Style doubleChar pieces scalarText singleBody)

/-- The mark of a file. -/
def mark : List Char := Schema.includeMark.toList

theorem mark_eq : mark = ['!', 'i', 'n', 'c', 'l', 'u', 'd', 'e', ' '] := rfl

/-- The characters of the mark stand for themselves however a text is written, and none of them
follows a scalar. -/
theorem mark_plain : ∀ c ∈ mark, c ≠ ':' ∧ c ≠ '\n' := by simp [mark_eq]

/-- The mark needs no escape in double quotes. -/
theorem mark_double : ∀ c ∈ mark, c ≠ '"' ∧ c ≠ '\\' ∧ doubleChar c = [c] := by
  simp [mark_eq, doubleChar, Yaml.escapeLetter?]

/-- Nothing in the mark is doubled or moved to another line in single quotes. -/
theorem mark_single : ∀ c ∈ mark, Yaml.isBreak c = false ∧ c ≠ '\'' := by
  simp [mark_eq, Yaml.isBreak]

/-! ## Scanning

`unquoteIncludes` goes through a document once, from left to right. It knows only whether it is
within the quotes around a mark, so each lemma here is about the first character that is left. -/

section

variable {cs rest more : List Char}

/-- A character that is no quote stays, and the scan goes on as it was. -/
theorem unquoteIncludes_cons {c : Char} (h : c ≠ '\'') (inMark : Bool) (cs : List Char) :
    unquoteIncludes inMark (c :: cs) = c :: unquoteIncludes inMark cs := by
  cases inMark <;> simp [unquoteIncludes, h]

/-- Nothing is taken away where there is no quote. -/
theorem unquoteIncludes_append (h : '\'' ∉ cs) (inMark : Bool) (rest : List Char) :
    unquoteIncludes inMark (cs ++ rest) = cs ++ unquoteIncludes inMark rest := by
  induction cs with
  | nil => rfl
  | cons c cs ih =>
    rw [List.mem_cons, not_or] at h
    rw [List.cons_append, unquoteIncludes_cons (Ne.symm h.1), ih h.2, List.cons_append]

/-- The first quote within the quotes around a mark closes them, and is taken away. -/
theorem unquoteIncludes_close (cs : List Char) :
    unquoteIncludes true ('\'' :: cs) = unquoteIncludes false cs := if_pos rfl

/-- A quote opens the quotes around a mark if the mark comes right after it and another quote comes
later. How much later does not count: the other quote may be one of another scalar. -/
theorem opensInclude_iff : opensInclude cs = true ↔ mark <+: cs ∧ '\'' ∈ cs := by
  rw [opensInclude, Bool.and_eq_true, List.isPrefixOf_iff_prefix, List.contains_iff_mem, mark]

/-- A quote stays exactly if it does not open the quotes around a mark. -/
theorem unquoteIncludes_quote_iff :
    unquoteIncludes false ('\'' :: cs) = '\'' :: more
      ↔ opensInclude cs = false ∧ unquoteIncludes false cs = more := by
  cases hopens : opensInclude cs with
  | false => simp [unquoteIncludes, hopens]
  | true =>
    rw [unquoteIncludes, if_pos ⟨rfl, hopens⟩]
    -- The mark comes next, and it is no quote.
    obtain ⟨⟨file, rfl⟩, _⟩ := opensInclude_iff.mp hopens
    simp [unquoteIncludes, mark_eq]

theorem filter_unquoteIncludes (inMark : Bool) (cs : List Char) :
    (unquoteIncludes inMark cs).filter (· != '\'') = cs.filter (· != '\'') := by
  fun_induction unquoteIncludes inMark cs with
  | case1 => rfl
  | case2 cs ih => rw [ih, List.filter_cons_of_neg (by decide)]
  | case3 c cs h ih => rw [List.filter_cons, List.filter_cons, ih]
  | case4 c cs h ih => rw [ih, h.1, List.filter_cons_of_neg (by decide)]
  | case5 c cs h ih => rw [List.filter_cons, List.filter_cons, ih]

end

/-! ## What is said of a text

A quote is only taken away where a mark comes right after it and another quote comes later. So what
is said of a text is said of its parts after quotes, and what is written after the text counts as
well. -/

/-- Something is true of what comes after each quote of a text. -/
def AfterQuotes (p : List Char → Prop) (cs : List Char) : Prop :=
  ∀ before rest, cs = before ++ '\'' :: rest → p rest

/-- Wherever a mark stands right after a quote, there is no quote later on, in the text or after
it. -/
def Harmless (cs after : List Char) : Prop :=
  AfterQuotes (fun rest => mark <+: rest → '\'' ∉ rest ∧ '\'' ∉ after) cs

/-- Only quotes come after the first quote. -/
def QuotesLast (cs : List Char) : Prop := AfterQuotes (fun rest => ∀ c ∈ rest, c = '\'') cs

section

variable {p : List Char → Prop} {cs after : List Char}

/-- A text without quotes has nothing that comes after one. -/
theorem afterQuotes_of_not_mem (h : '\'' ∉ cs) : AfterQuotes p cs := by
  intro before rest hsame
  exact absurd (hsame ▸ List.mem_append_right before List.mem_cons_self) h

theorem afterQuotes_nil : AfterQuotes p [] := afterQuotes_of_not_mem List.not_mem_nil

/-- A character that is no quote changes nothing of what comes after quotes. -/
theorem afterQuotes_cons {c : Char} (h : c ≠ '\'') :
    AfterQuotes p (c :: cs) ↔ AfterQuotes p cs := by
  constructor
  · rintro hcs before rest rfl
    exact hcs (c :: before) rest rfl
  · intro hcs before rest hsame
    cases before with
    | nil => exact absurd (List.cons.inj hsame).1 h
    | cons d before => exact hcs before rest (List.cons.inj hsame).2

/-- A quote adds the whole rest to what comes after quotes. -/
theorem afterQuotes_quote : AfterQuotes p ('\'' :: cs) ↔ p cs ∧ AfterQuotes p cs := by
  constructor
  · refine fun hcs => ⟨hcs [] cs rfl, fun before rest hsame => ?_⟩
    exact hcs ('\'' :: before) rest (congrArg _ hsame)
  · rintro ⟨hfirst, hcs⟩ before rest hsame
    cases before with
    | nil => exact (List.cons.inj hsame).2 ▸ hfirst
    | cons d before => exact hcs before rest (List.cons.inj hsame).2

/-- From the first quote on there are only quotes. -/
theorem quotesLast_quote : QuotesLast ('\'' :: cs) ↔ ∀ c ∈ cs, c = '\'' := by
  refine afterQuotes_quote.trans (and_iff_left_of_imp ?_)
  rintro hcs before rest rfl c hc
  exact hcs c (List.mem_append_right _ (List.mem_cons_of_mem _ hc))

/-- A quote that is written stays if what comes after it does, and is harmless there. The text that
is written has the mark where the text itself has it, and has the quotes of the text and those that
come later. -/
theorem unquote_quote_iff {out more : List Char} {later : Prop}
    (hmark : mark <+: out ↔ mark <+: cs) (hquotes : '\'' ∉ out ↔ '\'' ∉ cs ∧ '\'' ∉ after)
    (h : unquoteIncludes false out = more ↔ Harmless cs after ∧ later) :
    unquoteIncludes false ('\'' :: out) = '\'' :: more
      ↔ Harmless ('\'' :: cs) after ∧ later := by
  have hopens : opensInclude out = false ↔ (mark <+: cs → '\'' ∉ cs ∧ '\'' ∉ after) := by
    rw [← Bool.not_eq_true, opensInclude_iff, hmark, not_and, hquotes]
  rw [unquoteIncludes_quote_iff, hopens, h, ← and_assoc, Harmless, Harmless, afterQuotes_quote]

end

/-! ## Plain scalars

A plain scalar is written as it is. It ends before a colon or a line end (`Stops`), and neither of
the two occurs in the mark, so that a mark cannot run over its end. -/

/-- A mark at the start of a text that stops is one of the text itself. -/
theorem prefix_plain_iff {word cs rest : List Char} (hword : ∀ c ∈ word, c ≠ ':' ∧ c ≠ '\n')
    (h : Stops rest) : word <+: cs ++ rest ↔ word <+: cs := by
  refine ⟨?_, fun hcs => hcs.trans (List.prefix_append cs rest)⟩
  induction cs generalizing word with
  | nil =>
    -- The text is at its end, and the word goes on with neither of the two characters that can
    -- follow.
    obtain ⟨c, later, rfl, hc⟩ := h
    cases word with
    | nil => exact fun _ => List.nil_prefix
    | cons d word =>
      intro hbegins
      obtain ⟨rfl, _⟩ := List.cons_prefix_cons.mp hbegins
      have hd := hword d List.mem_cons_self
      rcases hc with rfl | rfl
      · exact absurd rfl hd.1
      · exact absurd rfl hd.2
  | cons c cs ih =>
    cases word with
    | nil => exact fun _ => List.nil_prefix
    | cons d word =>
      rw [List.cons_append, List.cons_prefix_cons, List.cons_prefix_cons]
      exact fun ⟨hsame, hword'⟩ => ⟨hsame, ih (List.forall_mem_cons.mp hword).2 hword'⟩

/-- What follows a scalar does not open quotes. -/
theorem opensInclude_of_stops {rest : List Char} (h : Stops rest) : opensInclude rest = false := by
  obtain ⟨c, later, rfl, rfl | rfl⟩ := h <;> rfl

/-- A plain scalar keeps its quotes exactly if it is harmless before what follows it. -/
theorem unquote_plain_iff {rest more : List Char} (h : Stops rest) (cs : List Char) :
    unquoteIncludes false (cs ++ rest) = cs ++ more
      ↔ Harmless cs rest ∧ unquoteIncludes false rest = more := by
  induction cs with
  | nil => exact (and_iff_right afterQuotes_nil).symm
  | cons c cs ih =>
    by_cases hc : c = '\''
    · rw [hc]
      exact unquote_quote_iff (prefix_plain_iff mark_plain h) (by simp) ih
    · rw [List.cons_append, List.cons_append, unquoteIncludes_cons hc, List.cons_inj_right, ih,
        Harmless, Harmless, afterQuotes_cons hc]

/-! ## Scalars in double quotes

Quotes are no escapes in double quotes: they are written once, and the mark in front of them as it
is. What is written has a mark after a quote exactly where the text has it. -/

/-- A word of characters that need no escape is found again in double quotes. -/
theorem prefix_double_iff {word cs rest : List Char}
    (hword : ∀ c ∈ word, c ≠ '"' ∧ c ≠ '\\' ∧ doubleChar c = [c]) :
    word <+: cs.flatMap doubleChar ++ '"' :: rest ↔ word <+: cs := by
  -- The word is taken along, a character of it for each one of the text.
  induction cs generalizing word with
  | nil =>
    cases word with
    | nil => exact iff_of_true List.nil_prefix List.nil_prefix
    | cons d word =>
      refine iff_of_false (fun h => ?_) (by simp)
      exact (hword d List.mem_cons_self).1 (List.cons_prefix_cons.mp h).1
  | cons c cs ih =>
    cases word with
    | nil => exact iff_of_true List.nil_prefix List.nil_prefix
    | cons d word =>
      rw [List.forall_mem_cons] at hword
      obtain ⟨⟨_, hbackslash, hd⟩, hword⟩ := hword
      rw [List.flatMap_cons, List.append_assoc, List.cons_prefix_cons, ← ih hword]
      rcases Yaml.doubleChar_cases c with hc | ⟨escape, hc, _⟩
      · rw [hc]
        exact List.cons_prefix_cons
      · -- No character of the word is a backslash, and none is written as an escape.
        rw [hc]
        refine iff_of_false (fun h => ?_) (fun h => ?_)
        · exact hbackslash (List.cons_prefix_cons.mp h).1
        · rw [← h.1, hd] at hc
          exact hbackslash (List.cons.inj hc).1

/-- Escapes bring no quotes in and hide none. -/
theorem quote_mem_flatMap_doubleChar {cs : List Char} :
    '\'' ∈ cs.flatMap doubleChar ↔ '\'' ∈ cs := by
  constructor
  · intro h
    obtain ⟨c, hmem, hc⟩ := List.mem_flatMap.mp h
    rcases Yaml.doubleChar_cases c with hshown | ⟨escape, hescaped, hescape⟩
    · rw [hshown, List.mem_singleton] at hc
      exact hc ▸ hmem
    · rw [hescaped, List.mem_cons] at hc
      exact absurd hc (not_or.mpr ⟨by decide, hescape⟩)
  · exact fun h => List.mem_flatMap.mpr ⟨'\'', h, by decide⟩

/-- A text in double quotes keeps its own quotes exactly if it is harmless. The double quote that
closes it is neither a quote nor the start of a mark. -/
theorem unquote_double_iff {rest more : List Char} (cs : List Char) :
    unquoteIncludes false (cs.flatMap doubleChar ++ '"' :: rest)
        = cs.flatMap doubleChar ++ '"' :: more
      ↔ Harmless cs rest ∧ unquoteIncludes false rest = more := by
  induction cs with
  | nil =>
    show unquoteIncludes false ('"' :: rest) = '"' :: more ↔ _
    rw [unquoteIncludes_cons (by decide), List.cons_inj_right]
    exact (and_iff_right afterQuotes_nil).symm
  | cons c cs ih =>
    rw [List.flatMap_cons, List.append_assoc, List.append_assoc]
    by_cases hc : c = '\''
    · -- A quote: what is said of the rest is said of what is written of it.
      have hquote : doubleChar '\'' = ['\''] := by decide
      have hquotes : '\'' ∉ cs.flatMap doubleChar ++ '"' :: rest ↔ '\'' ∉ cs ∧ '\'' ∉ rest := by
        rw [List.mem_append, quote_mem_flatMap_doubleChar]
        simp
      rw [hc, hquote]
      exact unquote_quote_iff (prefix_double_iff mark_double) hquotes ih
    · -- Anything else is written without quotes, be it escaped or not.
      have hfree : '\'' ∉ doubleChar c := by
        rcases Yaml.doubleChar_cases c with hshown | ⟨escape, hescaped, hescape⟩
        · rw [hshown, List.mem_singleton]
          exact Ne.symm hc
        · rw [hescaped, List.mem_cons]
          exact not_or.mpr ⟨by decide, hescape⟩
      rw [unquoteIncludes_append hfree, List.append_cancel_left_eq, ih, Harmless, Harmless,
        afterQuotes_cons hc]

/-! ## Scalars in single quotes

Quotes are doubled in single quotes and line ends may be, with an indentation after them. Whether a
line end comes before is the state of `singleBody`, so the inductions are over all its states. -/

/-- A line end is written as it is; a line feed that begins a series of line ends is doubled. -/
theorem singleBody_of_isBreak {c : Char} (h : Yaml.isBreak c = true) (indent : Nat)
    (inBreak : Bool) (cs : List Char) : singleBody indent inBreak (c :: cs)
      = (if c = '\n' ∧ inBreak = false then ['\n'] else []) ++ c :: singleBody indent true cs := by
  rw [singleBody, if_pos h]

/-- Any other character comes after the indentation, if a line end was before it. A quote is written
twice. -/
theorem singleBody_of_not_isBreak {c : Char} (h : Yaml.isBreak c = false) (indent : Nat)
    (inBreak : Bool) (cs : List Char) : singleBody indent inBreak (c :: cs)
      = (if inBreak then List.replicate indent ' ' else []) ++
        ((if c = '\'' then ['\'', '\''] else [c]) ++ singleBody indent false cs) := by
  rw [singleBody, if_neg (Bool.eq_false_iff.mp h), List.append_assoc]

/-- The indentation after a line end has no quotes. -/
theorem quote_not_mem_breakIndent (indent : Nat) (inBreak : Bool) :
    '\'' ∉ if inBreak then List.replicate indent ' ' else [] := by
  cases inBreak <;> simp

/-- A character other than a quote is written in single quotes without one, whatever comes after
it. -/
theorem singleBody_cons {c : Char} (h : c ≠ '\'') (indent : Nat) (inBreak : Bool) :
    ∃ text, text ≠ [] ∧ '\'' ∉ text ∧ ∀ cs, singleBody indent inBreak (c :: cs)
      = text ++ singleBody indent (Yaml.isBreak c) cs := by
  -- A line end is doubled if it begins a series; another character after line ends stands behind an
  -- indentation.
  cases hbreak : Yaml.isBreak c with
  | true =>
    refine ⟨(if c = '\n' ∧ inBreak = false then ['\n'] else []) ++ [c], by simp, ?_, fun cs => ?_⟩
    · rw [List.mem_append, List.mem_singleton, not_or]
      refine ⟨?_, Ne.symm h⟩
      split <;> decide
    · rw [singleBody_of_isBreak hbreak, List.append_assoc]
      rfl
  | false =>
    refine ⟨(if inBreak then List.replicate indent ' ' else []) ++ [c], by simp, ?_, fun cs => ?_⟩
    · rw [List.mem_append, List.mem_singleton, not_or]
      exact ⟨quote_not_mem_breakIndent indent inBreak, Ne.symm h⟩
    · rw [singleBody_of_not_isBreak hbreak, if_neg h, List.append_assoc]

/-- What is written of a quote: the indentation, and two quotes. -/
theorem singleBody_quote (indent : Nat) (inBreak : Bool) (cs : List Char) :
    singleBody indent inBreak ('\'' :: cs)
      = (if inBreak then List.replicate indent ' ' else []) ++
        '\'' :: '\'' :: singleBody indent false cs := by
  rw [singleBody_of_not_isBreak (by decide), if_pos rfl]
  rfl

/-- A word without quotes and line ends is found again in single quotes. -/
theorem prefix_single_iff {word cs rest : List Char} {indent : Nat}
    (hword : ∀ c ∈ word, Yaml.isBreak c = false ∧ c ≠ '\'') :
    word <+: singleBody indent false cs ++ '\'' :: rest ↔ word <+: cs := by
  induction cs generalizing word with
  | nil =>
    cases word with
    | nil => exact iff_of_true List.nil_prefix List.nil_prefix
    | cons d word =>
      refine iff_of_false (fun h => ?_) (by simp)
      exact (hword d List.mem_cons_self).2 (List.cons_prefix_cons.mp h).1
  | cons c cs ih =>
    cases word with
    | nil => exact iff_of_true List.nil_prefix List.nil_prefix
    | cons d word =>
      rw [List.forall_mem_cons] at hword
      obtain ⟨⟨hshown, hquote⟩, hword⟩ := hword
      rw [List.cons_prefix_cons]
      cases hbreak : Yaml.isBreak c with
      | true =>
        -- A line end comes first, as it is or doubled.
        have hother : d ≠ c := by
          rintro rfl
          exact absurd (hshown.symm.trans hbreak) nofun
        have hfeed : d ≠ '\n' := by
          rintro rfl
          exact absurd hshown (by decide)
        rw [singleBody_of_isBreak hbreak]
        refine iff_of_false (fun h => ?_) fun h => hother h.1
        split at h
        · exact hfeed (List.cons_prefix_cons.mp h).1
        · exact hother (List.cons_prefix_cons.mp h).1
      | false =>
        rw [singleBody_of_not_isBreak hbreak, if_neg Bool.false_ne_true, List.nil_append,
          ← ih hword]
        split
        · next hc =>
          refine iff_of_false (fun h => ?_) fun h => hquote (h.1.trans hc)
          exact hquote (List.cons_prefix_cons.mp h).1
        · exact List.cons_prefix_cons

/-- A text in single quotes, apart from the first of them. -/
theorem unquote_single_iff {rest more : List Char} (h : Stops rest) (indent : Nat) (inBreak : Bool)
    (cs : List Char) :
    unquoteIncludes false (singleBody indent inBreak cs ++ '\'' :: rest)
        = singleBody indent inBreak cs ++ '\'' :: more
      ↔ Harmless cs ('\'' :: rest) ∧ unquoteIncludes false rest = more := by
  induction cs generalizing inBreak with
  | nil =>
    -- The quote that closes the text is followed by a colon or a line end.
    rw [singleBody, unquoteIncludes_append (quote_not_mem_breakIndent indent inBreak),
      List.append_cancel_left_eq, unquoteIncludes_quote_iff,
      and_iff_right (opensInclude_of_stops h)]
    exact (and_iff_right afterQuotes_nil).symm
  | cons c cs ih =>
    by_cases hc : c = '\''
    · -- Of the two quotes that are written only the second one can open others.
      rw [hc, singleBody_quote, List.append_assoc, List.append_assoc,
        unquoteIncludes_append (quote_not_mem_breakIndent indent inBreak),
        List.append_cancel_left_eq, List.cons_append, List.cons_append, List.cons_append,
        List.cons_append, unquoteIncludes_quote_iff, and_iff_right (by rfl)]
      exact unquote_quote_iff (prefix_single_iff mark_single) (by simp) (ih false)
    · obtain ⟨text, _, hfree, hbody⟩ := singleBody_cons hc indent inBreak
      rw [hbody, List.append_assoc, List.append_assoc, unquoteIncludes_append hfree,
        List.append_cancel_left_eq, ih, Harmless, Harmless, afterQuotes_cons hc]

/-! ## Marks of files

A mark of a file in single quotes is what should lose its quotes. It does so only up to the first
quote within it, which the scan takes for the closing one. What is left of it is then shorter than
it should be, unless nothing but quotes follows: then each of them is still taken for the other one
of its pair. -/

/-- After a quote within the quotes around a mark, only quotes may follow. -/
theorem unquote_after_quote_iff {rest more : List Char} (h : Stops rest) (indent : Nat)
    (cs : List Char) :
    unquoteIncludes false ('\'' :: (singleBody indent false cs ++ '\'' :: rest))
        = '\'' :: '\'' :: (singleBody indent false cs ++ more)
      ↔ (∀ c ∈ cs, c = '\'') ∧ unquoteIncludes false rest = more := by
  induction cs with
  | nil =>
    show unquoteIncludes false ('\'' :: '\'' :: rest) = '\'' :: '\'' :: more ↔ _
    rw [unquoteIncludes_quote_iff, and_iff_right (by rfl), unquoteIncludes_quote_iff,
      and_iff_right (opensInclude_of_stops h), and_iff_right nofun]
  | cons c cs ih =>
    rw [List.forall_mem_cons]
    by_cases hc : c = '\''
    · rw [hc, and_iff_right rfl, singleBody_quote, if_neg Bool.false_ne_true, List.nil_append,
        List.cons_append, List.cons_append, unquoteIncludes_quote_iff, and_iff_right (by rfl),
        unquoteIncludes_quote_iff, and_iff_right (by rfl)]
      exact ih
    · -- The second of two quotes is missing, and what comes instead is no quote.
      obtain ⟨text, hne, hfree, hbody⟩ := singleBody_cons hc indent false
      refine iff_of_false (fun hsame => ?_) fun hquotes => hc hquotes.1.1
      obtain ⟨_, hsame⟩ := unquoteIncludes_quote_iff.mp hsame
      cases text with
      | nil => exact hne rfl
      | cons d text =>
        rw [List.mem_cons, not_or] at hfree
        rw [hbody, List.append_assoc, List.cons_append,
          unquoteIncludes_cons (Ne.symm hfree.1)] at hsame
        exact hfree.1 (List.cons.inj hsame).1.symm

/-- A text within the quotes around a mark. -/
theorem unquote_inMark_iff {rest more : List Char} (h : Stops rest) (indent : Nat)
    (inBreak : Bool) (cs : List Char) :
    unquoteIncludes true (singleBody indent inBreak cs ++ '\'' :: rest)
        = singleBody indent inBreak cs ++ more
      ↔ QuotesLast cs ∧ unquoteIncludes false rest = more := by
  induction cs generalizing inBreak with
  | nil =>
    rw [singleBody, unquoteIncludes_append (quote_not_mem_breakIndent indent inBreak),
      List.append_cancel_left_eq, unquoteIncludes_close]
    exact (and_iff_right afterQuotes_nil).symm
  | cons c cs ih =>
    by_cases hc : c = '\''
    · -- The first of the two quotes is taken for the one that closes the mark.
      rw [hc, singleBody_quote, List.append_assoc, List.append_assoc,
        unquoteIncludes_append (quote_not_mem_breakIndent indent inBreak),
        List.append_cancel_left_eq, List.cons_append, unquoteIncludes_close, quotesLast_quote]
      exact unquote_after_quote_iff h indent cs
    · obtain ⟨text, _, hfree, hbody⟩ := singleBody_cons hc indent inBreak
      rw [hbody, List.append_assoc, List.append_assoc, unquoteIncludes_append hfree,
        List.append_cancel_left_eq, ih, QuotesLast, QuotesLast, afterQuotes_cons hc]

/-! ## One scalar

The three ways of writing a scalar are put together. What is asked of a scalar depends on whether it
is the mark of a file and on what is written after it. -/

/-- Whether a text is the mark of a file and written in single quotes. Marks in double quotes are
not looked for. -/
def isFileMark (text : String) : Bool :=
  mark.isPrefixOf text.toList && Style.of text.toList = .single

/-- The two conditions for a mark, as they are used. -/
theorem isFileMark_iff {text : String} :
    isFileMark text = true ↔ mark <+: text.toList ∧ Style.of text.toList = .single := by
  rw [isFileMark, Bool.and_eq_true, List.isPrefixOf_iff_prefix, decide_eq_true_eq]

/-- A piece with the quotes around marks of files taken away. -/
def unquoted : Piece → List Char
  | .layout cs => cs
  | .scalar indent text =>
    if isFileMark text then singleBody indent false text.toList
    else scalarText indent text.toList

/-- What has to be true of a text, with something after it, so that it is only unquoted where it is
the mark of a file. The quote at the end of a text in single quotes counts as coming after it. -/
def IsSpared (text : String) (after : List Char) : Prop :=
  if isFileMark text then QuotesLast text.toList
  else Harmless text.toList (if Style.of text.toList = .single then '\'' :: after else after)

/-- A text in single quotes and what follows it. -/
theorem scalarText_single {cs : List Char} (h : Style.of cs = .single) (indent : Nat)
    (after : List Char) : scalarText indent cs ++ after
      = '\'' :: (singleBody indent false cs ++ '\'' :: after) := by
  rw [scalarText, h]
  simp

/-- A text in double quotes and what follows it. -/
theorem scalarText_double {cs : List Char} (h : Style.of cs = .double) (indent : Nat)
    (after : List Char) : scalarText indent cs ++ after
      = '"' :: (cs.flatMap doubleChar ++ '"' :: after) := by
  rw [scalarText, h]
  simp

/-- A scalar only loses the quotes that it should if it is spared. -/
theorem unquote_scalar_iff {rest more : List Char} (h : Stops rest) (indent : Nat)
    (text : String) :
    unquoteIncludes false (scalarText indent text.toList ++ rest)
        = unquoted (.scalar indent text) ++ more
      ↔ IsSpared text rest ∧ unquoteIncludes false rest = more := by
  -- A quote before a text in single quotes opens a mark exactly if the text begins with one, as the
  -- closing quote always comes later.
  have hopens : opensInclude (singleBody indent false text.toList ++ '\'' :: rest) = true
      ↔ mark <+: text.toList := by
    rw [opensInclude_iff, prefix_single_iff mark_single]
    simp
  by_cases hmark : isFileMark text = true
  · obtain ⟨hbegins, hstyle⟩ := isFileMark_iff.mp hmark
    rw [unquoted, if_pos hmark, IsSpared, if_pos hmark, scalarText_single hstyle,
      unquoteIncludes, if_pos ⟨rfl, hopens.mpr hbegins⟩]
    exact unquote_inMark_iff h indent false text.toList
  · rw [unquoted, if_neg hmark, IsSpared, if_neg hmark]
    cases hstyle : Style.of text.toList with
    | plain =>
      rw [scalarText, hstyle, if_neg (by decide)]
      exact unquote_plain_iff h text.toList
    | double =>
      rw [scalarText_double hstyle, scalarText_double hstyle, if_neg (by decide),
        unquoteIncludes_cons (by decide), List.cons_inj_right]
      exact unquote_double_iff text.toList
    | single =>
      -- The quote that opens a text stays, as no mark comes after it.
      have hclosed :
          opensInclude (singleBody indent false text.toList ++ '\'' :: rest) = false := by
        rw [← Bool.not_eq_true, hopens]
        exact fun hbegins => hmark (isFileMark_iff.mpr ⟨hbegins, hstyle⟩)
      rw [scalarText_single hstyle, scalarText_single hstyle, if_pos rfl,
        unquoteIncludes_quote_iff, and_iff_right hclosed]
      exact unquote_single_iff h indent false text.toList

/-! ## All scalars

The pieces of a document are gone through from the last one to the first, because what is asked of a
scalar depends on all that is written after it. For texts that are clean that dependence is gone. -/

/-- Whether all scalars of a document are spared. -/
def AreSpared : List Piece → Prop
  | [] => True
  | .layout _ :: rest => AreSpared rest
  | .scalar _ text :: rest => IsSpared text (rest.flatMap Piece.written) ∧ AreSpared rest

/-- Only the quotes around marks of files are taken away exactly if all scalars are spared. -/
theorem unquote_pieces_iff {ps : List Piece} (h : Laid ps []) :
    unquoteIncludes false (ps.flatMap Piece.written) = ps.flatMap unquoted ↔ AreSpared ps := by
  induction ps with
  | nil => exact iff_of_true rfl trivial
  | cons p ps ih =>
    rw [List.flatMap_cons, List.flatMap_cons]
    cases p with
    | layout cs =>
      obtain ⟨hfree, hrest⟩ := h
      rw [Piece.written, unquoted, unquoteIncludes_append hfree, List.append_cancel_left_eq,
        ih hrest, AreSpared]
    | scalar indent text =>
      -- What comes after the scalar is the rest of the document.
      obtain ⟨hstops, hrest⟩ := h
      rw [List.append_nil] at hstops
      rw [Piece.written, unquote_scalar_iff hstops, ih hrest, AreSpared]

/-- A text that is spared whatever comes after it: one without quotes, or one that is not the mark
of a file and has none in quotes within it. -/
def IsClean (cs : List Char) : Prop :=
  '\'' ∉ cs ∨ ¬mark <+: cs ∧ ¬('\'' :: mark) <:+: cs

/-- A clean text is spared, whatever comes after it. -/
theorem isSpared_of_isClean {text : String} (h : IsClean text.toList) (after : List Char) :
    IsSpared text after := by
  unfold IsSpared
  split
  · next hmark =>
    obtain hfree | ⟨hother, _⟩ := h
    · exact afterQuotes_of_not_mem hfree
    · exact absurd (isFileMark_iff.mp hmark).1 hother
  · obtain hfree | ⟨_, hnone⟩ := h
    · exact afterQuotes_of_not_mem hfree
    · rintro before rest hsame ⟨file, rfl⟩
      exact absurd ⟨before, file, by rw [hsame, List.append_assoc]; rfl⟩ hnone

/-- If all scalars of a document are clean, then all of them are spared. -/
theorem areSpared_of_isClean {ps : List Piece}
    (h : ∀ s, Yaml.HasScalar ps s → IsClean s.toList) : AreSpared ps := by
  induction ps with
  | nil => trivial
  | cons p ps ih =>
    have hrest := ih fun s ⟨indent, hs⟩ => h s ⟨indent, List.mem_cons_of_mem p hs⟩
    cases p with
    | layout cs => exact hrest
    | scalar indent text =>
      exact ⟨isSpared_of_isClean (h text ⟨indent, List.mem_cons_self⟩) _, hrest⟩

/-- A text that mentions a mark within quotes is not spared, unless it is the mark of a file. -/
theorem not_isSpared_of_mention {text : String} {before file rest after : List Char}
    (hmark : isFileMark text = false)
    (h : text.toList = before ++ '\'' :: mark ++ (file ++ '\'' :: rest)) :
    ¬IsSpared text after := by
  intro hspared
  rw [IsSpared, if_neg (Bool.eq_false_iff.mp hmark)] at hspared
  have hfile := hspared before (mark ++ (file ++ '\'' :: rest)) (by rw [h, List.append_assoc]; rfl)
  exact (hfile (List.prefix_append _ _)).1 (by simp)

/-- Each scalar of a document that is spared is spared before what comes after it. -/
theorem exists_isSpared {ps : List Piece} (h : AreSpared ps) {s : String}
    (hs : Yaml.HasScalar ps s) : ∃ after, IsSpared s after := by
  obtain ⟨indent, hmem⟩ := hs
  induction ps with
  | nil => cases hmem
  | cons p ps ih =>
    rcases List.mem_cons.mp hmem with rfl | hlater
    · exact ⟨_, h.1⟩
    · cases p with
      | layout cs => exact ih h hlater
      | scalar other text => exact ih h.2 hlater

/-- The document of a definition as it should be: the scalars that are marks of files without their
quotes, and everything else as it is written. -/
def intended (version : Version) (definition : Members) : String :=
  "#%RAML " ++ version.tag ++ "\n" ++ String.ofList ((pieces definition).flatMap unquoted)

/-- **Which quotes are taken away.** The pieces of a definition are what is written of it, with its
names and texts as scalars.

* The document has exactly the marks of files without their quotes, and everything else as it is
  written, if all scalars are spared; otherwise it is another one.
* They are spared if no text has a mark right after a quote, and no mark of a file has a quote.
* They are not if another text than the mark of a file mentions a mark within quotes.
* Nothing but quotes is ever taken away. -/
theorem document_unquoted (version : Version) (definition : Members) :
    (pieces definition).flatMap Piece.written = Yaml.writeChars definition
      ∧ (∀ s, Yaml.HasScalar (pieces definition) s ↔ HasText (.obj definition) s)
      ∧ (document version definition = intended version definition
        ↔ AreSpared (pieces definition))
      ∧ ((∀ s, HasText (.obj definition) s → IsClean s.toList) →
        document version definition = intended version definition)
      ∧ (∀ s before file rest, HasText (.obj definition) s → isFileMark s = false →
        s.toList = before ++ '\'' :: mark ++ (file ++ '\'' :: rest) →
          document version definition ≠ intended version definition)
      ∧ (unquoteIncludes false (Yaml.writeChars definition)).filter (· != '\'')
        = (Yaml.writeChars definition).filter (· != '\'') := by
  have hwritten := Yaml.flatMap_written_pieces definition
  have hspared : document version definition = intended version definition
      ↔ AreSpared (pieces definition) := by
    rw [← unquote_pieces_iff (Yaml.laid_pieces definition), hwritten, document, intended,
      String.append_right_inj, String.ofList_inj]
  refine ⟨hwritten, fun s => Yaml.hasScalar_pieces, hspared, fun hclean => ?_,
    fun s before file rest hs hmark hmention hsame => ?_, filter_unquoteIncludes false _⟩
  · exact hspared.mpr (areSpared_of_isClean fun s hs => hclean s (Yaml.hasScalar_pieces.mp hs))
  · obtain ⟨after, hafter⟩ := exists_isSpared (hspared.mp hsame) (Yaml.hasScalar_pieces.mpr hs)
    exact not_isSpared_of_mention hmark hmention hafter

/-- A definition with a type in a file of its own, and with quotes in a text. -/
def petDefinition : Members :=
  [("title", .str "Pets"), ("description", .str "'all' pets"),
   ("types", .obj [("Pet", .str "!include pet.json")])]

/-- The mark of the file loses its quotes, and the description keeps its own. -/
theorem document_unquoted_pets :
    (∀ s, HasText (.obj petDefinition) s → IsClean s.toList)
      ∧ document .v10 petDefinition = intended .v10 petDefinition
      ∧ document .v10 petDefinition = "#%RAML 1.0\ntitle: Pets\ndescription: '''all'' pets'\n" ++
        "types:\n  Pet: !include pet.json\n" := by
  -- Three texts are names, one is the mark, and only the description has quotes.
  have hclean : ∀ s, HasText (.obj petDefinition) s → IsClean s.toList := by
    intro s hs
    simp only [petDefinition, Yaml.hasText_obj_iff, Yaml.hasText_str_iff, List.mem_cons,
      List.not_mem_nil, or_false, exists_eq_or_imp, exists_eq_left] at hs
    have hquoted : IsClean "'all' pets".toList :=
      Or.inr ⟨by decide, fun h => absurd (h.subset (by decide : '!' ∈ '\'' :: mark)) (by decide)⟩
    rcases hs with (rfl | rfl) | (rfl | rfl) | rfl | rfl | rfl
    case inr.inl.inr => exact hquoted
    all_goals exact Or.inl (by decide)
  have hintended := (document_unquoted .v10 petDefinition).2.2.2.1 hclean
  refine ⟨hclean, hintended, ?_⟩
  rw [hintended]
  decide

/-- A project whose description mentions the mark of a file. -/
def proseProject : Project := { name := "N", description := "Write '!include x' here" }

def proseDefinition : Members :=
  [("title", .str "N"), ("description", .str "Write '!include x' here")]

/-- The description loses its quotes. -/
theorem prose_unquoted :
    (Exporter.write { version := .v10, project := some proseProject } "yaml").2
        = .ok "#%RAML 1.0\ntitle: N\ndescription: Write !include x here\n"
      ∧ Raml.definition .v10 proseProject = .ok proseDefinition
      ∧ intended .v10 proseDefinition
        = "#%RAML 1.0\ntitle: N\ndescription: Write '!include x' here\n" := by
  have hresources : resources .v10 proseProject (.str "") {} = .ok ([], {}) :=
    resources_of_ungrouped rfl rfl
  have hdefinition : Raml.definition .v10 proseProject = .ok proseDefinition :=
    Eq.trans (definition_of_resources rfl hresources rfl rfl rfl) rfl
  have hdocument : document .v10 proseDefinition
      = "#%RAML 1.0\ntitle: N\ndescription: Write !include x here\n" := by decide
  refine ⟨?_, hdefinition, by decide⟩
  have hwritten : (Exporter.write { version := .v10, project := some proseProject } "yaml").2
      = .ok (document .v10 proseDefinition) := by
    unfold Exporter.write
    dsimp only
    rw [hdefinition]
    exact (if_pos rfl : Exporter.serialize .v10 "yaml" proseDefinition = _)
  rw [hwritten, hdocument]

end Ramlify.Raml
