import Mathlib.Algebra.Group.Nat.Defs
import Mathlib.Data.List.Infix
import Ramlify.Proofs.Outcome
import Ramlify.Yaml.Token

/-!
# Ramlify — what tokens cannot be read for

Most faults of a YAML text are faults of its form. Where tokens are read there are two others: an
escape that stands for a number beyond all characters, and a number of a version that has too many
digits. Both are found in the text, because reading only moves forward in it.

* **`Advances`** — a reader moves forward and fails only over what is before it.
* **`advances_readNext`** — one token, case by case.
* **`exceeds_of_fault`** — all tokens, by induction on the reading.
-/

namespace Ramlify.Yaml

/-! ## Moving forward

A position follows another one if its rest is an end of the other's. Each step of a cursor leads to
such a position, and reading is made of these steps. -/

namespace Cursor

/-- A position that another one can be reached from. -/
def Follows (c' c : Cursor) : Prop := c'.rest <:+ c.rest

theorem Follows.refl (c : Cursor) : c.Follows c := List.suffix_refl c.rest

theorem Follows.trans {c c' c'' : Cursor} (h' : c''.Follows c') (h : c'.Follows c) :
    c''.Follows c :=
  List.IsSuffix.trans h' h

/-- One character on, the rest is without its first character. -/
theorem rest_next (c : Cursor) : c.next.rest = c.rest.tail := by
  -- A line end of two characters is passed in two steps, so each step takes one.
  unfold next
  split
  · next h => rw [h, List.tail_nil]
  · next ch rest h =>
    rw [h, List.tail_cons]
    split
    · rfl
    · split <;> rfl

/-- Some characters on, the rest is without them. -/
theorem rest_skip (n : Nat) (c : Cursor) : (c.skip n).rest = c.rest.drop n := by
  induction n generalizing c with
  | zero => rfl
  | succ n ih => rw [skip, ih, rest_next, List.drop_tail]

theorem follows_next (c : Cursor) : c.next.Follows c := by
  rw [Follows, rest_next]
  exact List.tail_suffix c.rest

theorem follows_skip (n : Nat) (c : Cursor) : (c.skip n).Follows c := by
  rw [Follows, rest_skip]
  exact List.drop_suffix n c.rest

theorem follows_skipWhile (kind : Char → Bool) (c : Cursor) : (c.skipWhile kind).Follows c :=
  follows_skip _ c

theorem follows_skipBlanks (c : Cursor) : c.skipBlanks.Follows c := follows_skipWhile _ c

theorem follows_skipComment (c : Cursor) : c.skipComment.Follows c := by
  unfold skipComment
  split
  · exact follows_skipWhile _ c
  · exact Follows.refl c

theorem follows_lineEnd {c c' : Cursor} {ch : Char} (h : c.lineEnd? = some (ch, c')) :
    c'.Follows c := by
  unfold lineEnd? at h
  split at h
  · cases h
    exact follows_skip 2 c
  · split at h
    · cases h
      exact follows_next c
    · split at h
      · cases h
        exact follows_next c
      · cases h
  · cases h

/-- Where a line end may be missing, the position follows as well. -/
theorem follows_skipLineEnd (c : Cursor) : c.skipLineEnd.Follows c := by
  unfold skipLineEnd
  split
  · next h => exact follows_lineEnd h
  · exact Follows.refl c

end Cursor

open Cursor

/-! ## Faults that are none of form

There are two kinds, and both are there to be seen in the text. That a reader fails over one of them
says that it stands at or after the position where the reader began. -/

/-- What a text begins with that no token can be made of: an escape beyond all characters, or a
number of too many digits. -/
inductive Excess : List Char → Misuse → Prop where
  | escape {digits : List Char} {code : Nat} {misuse : Misuse}
      (hcode : hexNumber? 8 0 digits = some code)
      (h : charOfCode code = .error (.misuse misuse)) : Excess ('\\' :: 'U' :: digits) misuse
  | number {cs : List Char}
      (h : digitLimit < (cs.takeWhile fun ch => '0' ≤ ch && ch ≤ '9').length) : Excess cs .content

/-- Somewhere in a text there is such a thing. -/
def Exceeds (cs : List Char) (misuse : Misuse) : Prop := ∃ rest, rest <:+ cs ∧ Excess rest misuse

/-- What exceeds in an end of a text exceeds in the text. -/
theorem Exceeds.of_suffix {cs cs' : List Char} {misuse : Misuse} (h : Exceeds cs' misuse)
    (hsuffix : cs' <:+ cs) : Exceeds cs misuse := by
  obtain ⟨rest, hrest, hexcess⟩ := h
  exact ⟨rest, hrest.trans hsuffix, hexcess⟩

/-- A reader that moves forward from a position, and that fails only over its form or over something
excessive that is still before it. -/
structure Advances {α : Type} (position : α → Cursor) (c : Cursor) (r : Reading α) : Prop where
  follows : ∀ a, r = .ok a → (position a).Follows c
  exceeds : ∀ misuse, r = .error (.misuse misuse) → Exceeds c.rest misuse

namespace Advances

variable {α β : Type} {position : α → Cursor} {after : β → Cursor} {c c' : Cursor}

/-- A reader that is done moved forward if its position follows. -/
theorem ok {a : α} (h : (position a).Follows c) : Advances position c (.ok a) where
  follows := fun _ heq => by
    cases heq
    exact h
  exceeds := nofun

/-- A reader that fails over the form has nothing to show. -/
theorem malformed : Advances position c (.error .malformed) := ⟨nofun, nofun⟩

/-- Readers move forward one after another. What the second one fails over is before the first one
too. -/
theorem bind {r : Reading α} {f : α → Reading β} (h : Advances position c r)
    (hf : ∀ a, r = .ok a → Advances after (position a) (f a)) :
    Advances after c (r >>= f) := by
  cases r with
  | error fault =>
    exact ⟨nofun, fun misuse heq => h.exceeds misuse (by cases heq; rfl)⟩
  | ok a =>
    have hstep := hf a rfl
    have hfollows := h.follows a rfl
    exact ⟨fun b hb => (hstep.follows b hb).trans hfollows,
      fun misuse hfault => (hstep.exceeds misuse hfault).of_suffix hfollows⟩

/-- A reader that starts further on moves forward from here. -/
theorem of_follows {r : Reading α} (h : Advances position c' r) (hfollows : c'.Follows c) :
    Advances position c r where
  follows := fun a ha => (h.follows a ha).trans hfollows
  exceeds := fun misuse hfault => (h.exceeds misuse hfault).of_suffix hfollows

end Advances

/-- A line that has to end moves forward to the next one. -/
theorem advances_finishLine (c : Cursor) : Advances id c c.finishLine := by
  unfold finishLine
  dsimp only
  split
  · exact .ok ((follows_skipLineEnd _).trans ((follows_skipComment _).trans (follows_skipBlanks c)))
  · exact .malformed

/-! ## Tags and directives

Tags are texts with percent escapes, and these are bytes: an escape that makes no character is
malformed. The one fault of another kind is the number of a version, which has a limit on its
digits. -/

/-- Percent escapes in a row move forward, by induction on their number. -/
theorem advances_escapedBytes (fuel : Nat) (bytes : List Nat) (c : Cursor) :
    Advances Prod.snd c (escapedBytes fuel bytes c) := by
  induction fuel generalizing bytes c with
  | zero => exact .ok (Follows.refl c)
  | succ fuel ih =>
    unfold escapedBytes
    split
    · split
      · exact (ih _ _).of_follows (follows_skip 3 c)
      · exact .malformed
    · exact .malformed
    · exact .ok (Follows.refl c)

theorem advances_tagChars (fuel : Nat) (text : List Char) (c : Cursor) :
    Advances Prod.snd c (tagChars fuel text c) := by
  induction fuel generalizing text c with
  | zero => exact .ok (Follows.refl c)
  | succ fuel ih =>
    unfold tagChars
    split
    · -- Escaped bytes together must make up characters.
      refine (advances_escapedBytes _ _ c).bind ?_
      rintro ⟨bytes, c'⟩ _
      dsimp only
      split
      · exact .malformed
      · exact ih _ c'
    · split
      · exact (ih _ _).of_follows (follows_next c)
      · exact .ok (Follows.refl c)
    · exact .ok (Follows.refl c)

theorem advances_readTagText (c : Cursor) : Advances Prod.snd c (readTagText c) := by
  unfold readTagText
  split
  · exact .malformed
  · refine (advances_tagChars _ _ c).bind ?_
    rintro ⟨text, c'⟩ _
    exact .ok (Follows.refl c')

theorem advances_readHandle (c : Cursor) : Advances Prod.snd c (readHandle c) := by
  unfold readHandle
  split
  · exact .ok (follows_next c)
  · dsimp only
    split
    · exact .ok (follows_skip _ c)
    · exact .malformed
  · exact .malformed

theorem advances_readFullTag (c : Cursor) : Advances Prod.snd c (readFullTag c) := by
  unfold readFullTag
  refine ((advances_readTagText _).of_follows (follows_skip 2 c)).bind ?_
  rintro ⟨suffix, c'⟩ _
  dsimp only
  split
  · exact .ok (follows_next c')
  · exact .malformed

theorem advances_readShortTag (c : Cursor) : Advances Prod.snd c (readShortTag c) := by
  have hsuffix : ∀ (handle : String) (c' : Cursor), Advances Prod.snd c'
      (readTagText c' >>= fun read =>
        pure (({ handle := some handle, suffix := read.1 } : TagText), read.2)) := by
    intro handle c'
    refine (advances_readTagText c').bind ?_
    rintro ⟨suffix, c''⟩ _
    exact .ok (Follows.refl c'')
  unfold readShortTag
  dsimp only
  split
  · exact (advances_readHandle c).bind fun read _ => hsuffix read.1 read.2
  · exact (hsuffix "!" c.next).of_follows (follows_next c)

theorem advances_readTag (c : Cursor) : Advances Prod.snd c (readTag c) := by
  -- After the tag there is a blank, a line end or the end.
  have hends : ∀ (tag : TagText) (c' : Cursor), Advances Prod.snd c'
      (if endsWord c'.rest then pure (tag, c') else .error .malformed) := by
    intro tag c'
    split
    · exact .ok (Follows.refl c')
    · exact .malformed
  unfold readTag
  dsimp only
  split
  · exact (advances_readFullTag c).bind fun read _ => hends read.1 read.2
  · split
    · exact (hends { suffix := "!" } c.next).of_follows (follows_next c)
    · exact (advances_readShortTag c).bind fun read _ => hends read.1 read.2

/-- A number of a version moves forward. If it has too many digits, they are here. -/
theorem advances_readNumber (c : Cursor) : Advances Prod.snd c (readNumber c) := by
  unfold readNumber
  dsimp only [Cursor.take]
  split
  · exact .malformed
  · split
    · next hlong =>
      -- The digits are counted before any of them is read, so they are still there.
      refine ⟨nofun, fun misuse heq => ?_⟩
      cases heq
      exact ⟨c.rest, List.suffix_refl _, .number hlong⟩
    · exact .ok (follows_skipWhile _ c)

theorem advances_readVersion (c : Cursor) : Advances Prod.snd c (readVersion c) := by
  unfold readVersion
  refine ((advances_readNumber _).of_follows (follows_skipBlanks c)).bind ?_
  rintro ⟨major, c₁⟩ _
  dsimp only
  split
  · exact .malformed
  · refine ((advances_readNumber _).of_follows (follows_next c₁)).bind ?_
    rintro ⟨minor, c₂⟩ _
    dsimp only
    split
    · exact .ok (Follows.refl c₂)
    · exact .malformed

theorem advances_readHandleDirective (c : Cursor) :
    Advances Prod.snd c (readHandleDirective c) := by
  unfold readHandleDirective
  refine ((advances_readHandle _).of_follows (follows_skipBlanks c)).bind ?_
  rintro ⟨handle, c₁⟩ _
  dsimp only
  split
  · exact .malformed
  · refine ((advances_readTagText _).of_follows (follows_skipBlanks c₁)).bind ?_
    rintro ⟨start, c₂⟩ _
    dsimp only
    split
    · exact .ok (Follows.refl c₂)
    · exact .malformed

theorem advances_readDirective (c : Cursor) : Advances Prod.snd c (readDirective c) := by
  -- Whatever the directive was, its line has to end.
  have hfinish : ∀ (directive : Directive) (c' : Cursor), Advances Prod.snd c'
      (c'.finishLine >>= fun after => pure (directive, after)) :=
    fun directive c' => (advances_finishLine c').bind fun after _ => .ok (Follows.refl after)
  unfold readDirective
  dsimp only [Cursor.take]
  split
  · exact .malformed
  · have hname : (c.next.skipWhile isNameChar).Follows c :=
      (follows_skipWhile _ _).trans (follows_next c)
    split
    · exact ((advances_readVersion _).of_follows hname).bind fun read _ => hfinish read.1 read.2
    · exact ((advances_readHandleDirective _).of_follows hname).bind
        fun read _ => hfinish read.1 read.2
    · exact (hfinish .other _).of_follows ((follows_skipWhile _ _).trans hname)

/-! ## Scalars

Of the kinds of scalars only the one in double quotes has escapes, and only the longest escapes
reach beyond the characters. The others are read without a fault of another kind than form. -/

theorem advances_quotedBreaks (fuel : Nat) (breaks : List Char) (c : Cursor) :
    Advances Prod.snd c (quotedBreaks fuel breaks c) := by
  induction fuel generalizing breaks c with
  | zero => exact .ok (Follows.refl c)
  | succ fuel ih =>
    unfold quotedBreaks
    split
    · exact .malformed
    · dsimp only
      split
      · exact .ok (follows_skipWhile _ c)
      · next h => exact (ih _ _).of_follows ((follows_lineEnd h).trans (follows_skipWhile _ c))

/-- A digit in base sixteen is below sixteen. -/
theorem hexValue?_lt {c : Char} {digit : Nat} (h : Json.hexValue? c = some digit) :
    digit < 16 := by
  unfold Json.hexValue? at h
  dsimp only at h
  split at h
  · cases h
    omega
  · split at h
    · cases h
      omega
    · split at h
      · cases h
        omega
      · cases h

/-- A number of some digits is below that power of sixteen, by induction on the digits. -/
theorem hexNumber?_lt {width n code : Nat} {cs : List Char}
    (h : hexNumber? width n cs = some code) : code < (n + 1) * 16 ^ width := by
  induction width generalizing n cs with
  | zero =>
    cases h
    omega
  | succ width ih =>
    cases cs with
    | nil => cases h
    | cons c cs =>
      unfold hexNumber? at h
      split at h
      · cases h
      · next digit hdigit =>
        have hlt := hexValue?_lt hdigit
        calc code < (n * 16 + digit + 1) * 16 ^ width := ih h
          _ ≤ ((n + 1) * 16) * 16 ^ width := Nat.mul_le_mul_right _ (by omega)
          _ = (n + 1) * 16 ^ (width + 1) := by rw [Nat.mul_assoc, ← Nat.pow_succ']

/-- Only the numbers of long escapes can be no numbers of characters. -/
theorem escape_long {ch : Char} {width code : Nat} {digits : List Char} {misuse : Misuse}
    (hwidth : escapeWidth? ch = some width) (hcode : hexNumber? width 0 digits = some code)
    (h : charOfCode code = .error (.misuse misuse)) : ch = 'U' ∧ width = 8 := by
  have hbound := hexNumber?_lt hcode
  have hlarge : 0x110000 ≤ code := by
    unfold charOfCode at h
    by_contra hsmall
    rw [if_neg (by omega), if_neg (by omega)] at h
    split at h <;> cases h
  -- Of the three widths only the last one is enough for such a number.
  unfold escapeWidth? at hwidth
  split at hwidth
  · cases hwidth
    omega
  · split at hwidth
    · cases hwidth
      omega
    · split at hwidth
      · next hch =>
        cases hwidth
        exact ⟨hch, rfl⟩
      · cases hwidth

theorem advances_readEscape {c : Cursor} {cs : List Char} (h : c.rest = '\\' :: cs) :
    Advances Prod.snd c (readEscape c.next) := by
  have hnext : c.next.rest = cs := by rw [rest_next, h, List.tail_cons]
  unfold readEscape
  rw [hnext]
  split
  · exact .malformed
  · next ch digits =>
    split
    · -- An escape of one letter.
      exact .ok ((follows_next _).trans (follows_next c))
    · -- An escape of digits. If no character has that number, the escape itself exceeds.
      next width _ hwidth =>
      split
      · exact .malformed
      · next code hcode =>
        cases hchar : charOfCode code with
        | ok char => exact .ok ((follows_skip _ _).trans (follows_next c))
        | error fault =>
          refine ⟨nofun, fun misuse heq => ?_⟩
          cases heq
          obtain ⟨rfl, rfl⟩ := escape_long hwidth hcode hchar
          exact ⟨c.rest, List.suffix_refl _, h ▸ .escape hcode hchar⟩
    · split
      · exact .malformed
      · -- An escaped line end.
        next hline =>
        exact (advances_quotedBreaks _ _ _).of_follows
          ((follows_lineEnd hline).trans (follows_next c))

theorem advances_quotedRun (double : Bool) (fuel : Nat) (text : List Char) (c : Cursor) :
    Advances Prod.snd c (quotedRun double fuel text c) := by
  induction fuel generalizing text c with
  | zero => exact .ok (Follows.refl c)
  | succ fuel ih =>
    unfold quotedRun
    split
    · exact .ok (Follows.refl c)
    · split
      · exact (ih _ _).of_follows (follows_next c)
      · exact (ih _ _).of_follows (follows_skip 2 c)
    · next ch rest _ hrest =>
      by_cases hend : (isGap ch || ch == (if double then '"' else '\'')) = true
      · rw [if_pos hend]
        exact .ok (Follows.refl c)
      · rw [if_neg hend]
        split
        · next hescape =>
          have hch : ch = '\\' := by
            rw [Bool.and_eq_true] at hescape
            exact beq_iff_eq.mp hescape.2
          -- An escape is read from behind its backslash, but blamed on the text with it.
          have hread := advances_readEscape (c := c) (hch ▸ hrest)
          split
          · next fault hfault =>
            exact ⟨nofun, fun misuse heq => hread.exceeds misuse (by rw [hfault]; cases heq; rfl)⟩
          · next more c' hmore => exact (ih _ c').of_follows (hread.follows _ hmore)
        · exact (ih _ _).of_follows (follows_next c)

theorem advances_quotedGap (c : Cursor) : Advances Prod.snd c (quotedGap c) := by
  unfold quotedGap
  dsimp only [Cursor.take]
  split
  · exact .malformed
  · split
    · exact .ok (follows_skipWhile _ c)
    · next h =>
      refine ((advances_quotedBreaks _ _ _).of_follows
        ((follows_lineEnd h).trans (follows_skipWhile _ c))).bind ?_
      rintro ⟨breaks, c'⟩ _
      exact .ok (Follows.refl c')

/-- Runs and gaps in turn move forward, up to the closing quote. -/
theorem advances_quotedFrom (double : Bool) (fuel : Nat) (text : List Char) (c : Cursor) :
    Advances Prod.snd c (quotedFrom double fuel text c) := by
  induction fuel generalizing text c with
  | zero => exact .malformed
  | succ fuel ih =>
    -- After a quote that does not close, and before the next run, there is a gap.
    have hgap : ∀ (text : List Char) (c : Cursor), Advances Prod.snd c
        (quotedGap c >>= fun read => quotedFrom double fuel (text ++ read.1) read.2) :=
      fun text c => (advances_quotedGap c).bind fun read _ => ih _ read.2
    unfold quotedFrom
    refine (advances_quotedRun double _ text c).bind ?_
    rintro ⟨text, c₁⟩ _
    dsimp only
    split
    · split
      · exact .ok (follows_next c₁)
      · exact hgap text c₁
    · split
      · exact .ok (follows_next c₁)
      · exact hgap text c₁

theorem advances_readQuoted (double : Bool) (c : Cursor) :
    Advances Prod.snd c (readQuoted double c) :=
  (advances_quotedFrom double _ [] c.next).of_follows (follows_next c)

/-! Block scalars and plain scalars are read without a fault of another kind than form. -/

theorem advances_indentDigit (c : Cursor) : Advances Prod.snd c (indentDigit c) := by
  unfold indentDigit
  split
  · split
    · exact .malformed
    · split
      · exact .ok (follows_next c)
      · exact .ok (Follows.refl c)
  · exact .ok (Follows.refl c)

/-- The header of a block moves forward, its two signs in either order. -/
theorem advances_readBlockHeader (c : Cursor) : Advances Prod.snd c (readBlockHeader c) := by
  -- After the signs there is nothing else on the line.
  have hends : ∀ (header : BlockHeader) (c' : Cursor), Advances Prod.snd c'
      (if endsWord c'.rest then c'.finishLine >>= fun after => pure (header, after)
        else .error .malformed) := by
    intro header c'
    split
    · exact (advances_finishLine c').bind fun after _ => .ok (Follows.refl after)
    · exact .malformed
  unfold readBlockHeader
  dsimp only
  split
  · exact ((advances_indentDigit _).of_follows (follows_next c)).bind
      fun read _ => hends _ read.2
  · refine (advances_indentDigit c).bind fun read _ => ?_
    split
    · exact (hends _ _).of_follows (follows_next _)
    · exact hends _ _

theorem follows_leadingLines (fuel : Nat) (breaks : List Char) (width : Nat) (c : Cursor) :
    (leadingLines fuel breaks width c).2.2.Follows c := by
  induction fuel generalizing breaks width c with
  | zero => exact Follows.refl c
  | succ fuel ih =>
    unfold leadingLines
    split
    · exact (ih _ _ _).trans (follows_next c)
    · split
      · exact Follows.refl c
      · next h => exact (ih _ _ _).trans (follows_lineEnd h)

theorem follows_skipIndent (fuel indent : Nat) (c : Cursor) :
    (skipIndent fuel indent c).Follows c := by
  induction fuel generalizing c with
  | zero => exact Follows.refl c
  | succ fuel ih =>
    unfold skipIndent
    split
    · exact (ih _).trans (follows_next c)
    · exact Follows.refl c

theorem follows_blockBreaks (indent fuel : Nat) (breaks : List Char) (c : Cursor) :
    (blockBreaks indent fuel breaks c).2.Follows c := by
  induction fuel generalizing breaks c with
  | zero => exact Follows.refl c
  | succ fuel ih =>
    unfold blockBreaks
    dsimp only
    split
    · exact follows_skipIndent _ _ c
    · next h => exact (ih _ _).trans ((follows_lineEnd h).trans (follows_skipIndent _ _ c))

/-- The lines of a block lead forward, by induction on their number. -/
theorem follows_blockLines (isFolded : Bool) (indent fuel : Nat) (read : BlockRead) :
    (blockLines isFolded indent fuel read).next.Follows read.next := by
  induction fuel generalizing read with
  | zero => exact Follows.refl _
  | succ fuel ih =>
    unfold blockLines
    split
    · dsimp only [Cursor.take]
      have hline := follows_skipWhile (fun ch => ch != '\r' && !isBreak ch) read.next
      -- After the line and its end there may be blank lines, and then more lines.
      have hrest : ∀ (c : Cursor) (found more : BlockRead), c.Follows read.next →
          found.next = (blockBreaks indent (c.rest.length + 1) [] c).2 → more.next = found.next →
          (if found.next.column = indent ∧ found.next.rest ≠ [] then
              blockLines isFolded indent fuel more else found).next.Follows read.next := by
        intro c found more hc hfound hmore
        have hblank : found.next.Follows read.next :=
          hfound ▸ (follows_blockBreaks _ _ _ c).trans hc
        split
        · exact (ih more).trans (hmore ▸ hblank)
        · exact hblank
      cases hend : (read.next.skipWhile fun ch => ch != '\r' && !isBreak ch).lineEnd? with
      | none => exact hrest _ ⟨_, _, _, _⟩ ⟨_, _, _, _⟩ hline rfl rfl
      | some found =>
        obtain ⟨ch, c⟩ := found
        exact hrest c ⟨_, _, _, _⟩ ⟨_, _, _, _⟩ ((follows_lineEnd hend).trans hline) rfl rfl
    · exact Follows.refl _

theorem advances_readBlock (isFolded : Bool) (outer : Int) (c : Cursor) :
    Advances Prod.snd c (readBlock isFolded outer c) := by
  unfold readBlock
  refine ((advances_readBlockHeader _).of_follows (follows_next c)).bind ?_
  rintro ⟨header, c₁⟩ _
  dsimp only
  cases header.indent with
  | some indent =>
    exact .ok ((follows_blockLines isFolded _ _ _).trans (follows_blockBreaks _ _ _ c₁))
  | none => exact .ok ((follows_blockLines isFolded _ _ _).trans (follows_leadingLines _ _ _ c₁))

theorem follows_plainBreaks (fuel : Nat) (breaks : List Char) (c : Cursor) :
    (plainBreaks fuel breaks c).2.Follows c := by
  induction fuel generalizing breaks c with
  | zero => exact Follows.refl c
  | succ fuel ih =>
    unfold plainBreaks
    split
    · exact (ih _ _).trans (follows_next c)
    · split
      · exact Follows.refl c
      · next h =>
        split
        · exact follows_lineEnd h
        · exact (ih _ _).trans (follows_lineEnd h)

/-- A gap in a plain scalar leads forward, if it is one, and else to its start. -/
theorem follows_plainGap (c : Cursor) : (plainGap c).next.Follows c := by
  unfold plainGap
  dsimp only [Cursor.take]
  -- Without a line end the gap is of blanks. With one there may be marks of a document after it, or
  -- more empty lines.
  split
  · exact follows_skipWhile _ c
  · next after h =>
    have hafter : after.Follows c := (follows_lineEnd h).trans (follows_skipWhile _ c)
    split
    · exact hafter
    · have hbreaks := follows_plainBreaks after.rest.length [] after
      split
      · next hread =>
        rw [hread] at hbreaks
        exact hbreaks.trans hafter
      · next hread =>
        rw [hread] at hbreaks
        exact hbreaks.trans hafter

/-- The words of a plain scalar lead forward, by induction on their number. -/
theorem follows_plainFrom (inFlow : Bool) (indent : Int) (fuel : Nat) (read : PlainScalar)
    (gap : List Char) : (plainFrom inFlow indent fuel read gap).next.Follows read.next := by
  induction fuel generalizing read gap with
  | zero => exact Follows.refl _
  | succ fuel ih =>
    unfold plainFrom
    dsimp only
    -- However long a run is, what comes after it follows.
    generalize (if read.next.rest.head? = some '#' then 0
      else plainRun inFlow read.next.rest) = length
    split
    · exact Follows.refl _
    · have hgap := (follows_plainGap (read.next.skip length)).trans (follows_skip length _)
      split
      · exact hgap
      · exact (ih _ _).trans hgap

theorem follows_readPlain (inFlow : Bool) (indent : Int) (c : Cursor) :
    (readPlain inFlow indent c).next.Follows c :=
  follows_plainFrom inFlow indent _ _ _

/-! ## One token

A token is read at the cursor of a scan. The rest of a scan, its open blocks and the places where a
key can be, only decides which token it is, so it does not matter for moving forward. -/

namespace Scan

/-- A reader of tokens that moves forward. -/
abbrev AdvancesFrom (s : Scan) (r : Reading Scan) : Prop := Advances cursor s.cursor r

theorem cursor_closeBlocks (column : Int) (outer : List Int) (s : Scan) :
    (closeBlocks column outer s).cursor = s.cursor := by
  induction outer generalizing s with
  | nil => rfl
  | cons indent outer ih =>
    unfold closeBlocks
    split
    · rw [ih]
      rfl
    · rfl

theorem cursor_unwind (s : Scan) (column : Int) : (s.unwind column).cursor = s.cursor := by
  unfold unwind
  split
  · exact cursor_closeBlocks column _ s
  · rfl

theorem cursor_openHere (s : Scan) (start : Token) : (s.openHere start).cursor = s.cursor := by
  unfold openHere
  split <;> rfl

theorem cursor_placeKey (s : Scan) (place : KeyPlace) : (s.placeKey place).cursor = s.cursor := by
  unfold placeKey
  dsimp only
  split <;> rfl

/-- Dropping places that are out of date does not move. -/
theorem advances_dropStale (s : Scan) : s.AdvancesFrom s.dropStale := by
  unfold dropStale
  split
  · exact .malformed
  · exact .ok (Follows.refl _)

theorem advances_dropPlace (s : Scan) : s.AdvancesFrom s.dropPlace := by
  unfold dropPlace
  split
  · exact .ok (Follows.refl _)
  · split
    · exact .malformed
    · exact .ok (Follows.refl _)

theorem advances_markPlace (s : Scan) : s.AdvancesFrom s.markPlace := by
  unfold markPlace
  split
  · exact .ok (Follows.refl _)
  · exact (advances_dropPlace s).bind fun s _ => .ok (Follows.refl _)

theorem advances_openForMark (s : Scan) (start : Token) :
    s.AdvancesFrom (s.openForMark start) := by
  unfold openForMark
  split
  · exact .ok (Follows.refl _)
  · split
    · refine .ok ?_
      rw [cursor_openHere]
      exact Follows.refl _
    · exact .malformed

/-- Closing all blocks and forgetting a place, before a token that ends a block. -/
theorem advances_unwind_dropPlace (s : Scan) (column : Int) :
    s.AdvancesFrom (s.unwind column).dropPlace := by
  have h := advances_dropPlace (s.unwind column)
  rwa [AdvancesFrom, cursor_unwind] at h

theorem advances_readDirectiveToken (s : Scan) : s.AdvancesFrom s.readDirectiveToken :=
  (advances_unwind_dropPlace s (-1)).bind fun s' _ =>
    (advances_readDirective s'.cursor).bind fun read _ => .ok (Follows.refl read.2)

theorem advances_readSeparator (s : Scan) (token : Token) :
    s.AdvancesFrom (s.readSeparator token) :=
  (advances_unwind_dropPlace s (-1)).bind fun s' _ => .ok (follows_skip 3 s'.cursor)

theorem advances_readOpening (s : Scan) (token : Token) : s.AdvancesFrom (s.readOpening token) :=
  (advances_markPlace s).bind fun s' _ => .ok (follows_skip 1 s'.cursor)

theorem advances_readClosing (s : Scan) (token : Token) : s.AdvancesFrom (s.readClosing token) :=
  (advances_dropPlace s).bind fun s' _ => .ok (follows_skip 1 s'.cursor)

theorem advances_readComma (s : Scan) : s.AdvancesFrom s.readComma :=
  (advances_dropPlace s).bind fun s' _ => .ok (follows_skip 1 s'.cursor)

/-- Opening a block and forgetting a place, before a mark of one character. -/
theorem advances_openForMark_dropPlace (s : Scan) (start : Token) {f : Scan → Scan}
    (hf : ∀ s', (f s').cursor = s'.cursor.skip 1) :
    s.AdvancesFrom (s.openForMark start >>= fun s' => s'.dropPlace >>= fun s'' => pure (f s'')) :=
  (advances_openForMark s start).bind fun s₁ _ =>
    (advances_dropPlace s₁).bind fun s₂ _ => .ok (hf s₂ ▸ follows_skip 1 s₂.cursor)

theorem advances_readItemMark (s : Scan) : s.AdvancesFrom s.readItemMark :=
  advances_openForMark_dropPlace s _ fun _ => rfl

theorem advances_readKeyMark (s : Scan) : s.AdvancesFrom s.readKeyMark :=
  advances_openForMark_dropPlace s _ fun _ => rfl

/-- A colon moves forward, after a key that was found late or without one. -/
theorem advances_readColon (s : Scan) : s.AdvancesFrom s.readColon := by
  unfold readColon
  split
  · next place _ =>
    refine .ok ?_
    show ((s.placeKey place).cursor.skip 1).Follows s.cursor
    rw [cursor_placeKey]
    exact follows_skip 1 s.cursor
  · exact advances_openForMark_dropPlace s _ fun _ => rfl

theorem advances_readName (s : Scan) (token : String → Token) :
    s.AdvancesFrom (s.readName token) := by
  refine (advances_markPlace s).bind fun s' _ => ?_
  dsimp only [Cursor.take]
  split
  · exact .malformed
  · exact .ok ((follows_skipWhile _ _).trans (follows_next s'.cursor))

theorem advances_readTagToken (s : Scan) : s.AdvancesFrom s.readTagToken :=
  (advances_markPlace s).bind fun s' _ =>
    (advances_readTag s'.cursor).bind fun read _ => .ok (Follows.refl read.2)

theorem advances_readBlockToken (s : Scan) (isFolded : Bool) :
    s.AdvancesFrom (s.readBlockToken isFolded) :=
  (advances_dropPlace s).bind fun s' _ =>
    (advances_readBlock isFolded _ s'.cursor).bind fun read _ => .ok (Follows.refl read.2)

theorem advances_readQuotedToken (s : Scan) (double : Bool) :
    s.AdvancesFrom (s.readQuotedToken double) :=
  (advances_markPlace s).bind fun s' _ =>
    (advances_readQuoted double s'.cursor).bind fun read _ => .ok (Follows.refl read.2)

theorem advances_readPlainToken (s : Scan) : s.AdvancesFrom s.readPlainToken :=
  (advances_markPlace s).bind fun s' _ => .ok (follows_readPlain _ _ s'.cursor)

theorem advances_finish (s : Scan) : s.AdvancesFrom s.finish :=
  (advances_unwind_dropPlace s (-1)).bind fun s' _ => .ok (Follows.refl s'.cursor)

/-- Any token moves forward, one case for each mark in the order in which they are tried. -/
theorem advances_readMark (s : Scan) (mark : Char) (after : List Char) :
    s.AdvancesFrom (s.readMark mark after) := by
  unfold readMark
  dsimp only
  split
  · exact advances_readOpening s _
  · exact advances_readOpening s _
  · exact advances_readClosing s _
  · exact advances_readClosing s _
  · exact advances_readComma s
  · exact advances_readName s _
  · exact advances_readName s _
  · exact advances_readTagToken s
  · exact advances_readQuotedToken s false
  · exact advances_readQuotedToken s true
  · split
    · exact advances_readItemMark s
    · split
      · exact advances_readKeyMark s
      · split
        · exact advances_readColon s
        · split
          · exact advances_readBlockToken s false
          · split
            · exact advances_readBlockToken s true
            · split
              · exact advances_readPlainToken s
              · exact .malformed

theorem follows_skipGap (fuel : Nat) (s : Scan) : (skipGap fuel s).cursor.Follows s.cursor := by
  induction fuel generalizing s with
  | zero => exact Follows.refl _
  | succ fuel ih =>
    have hgap : s.cursor.skipBlanks.skipComment.Follows s.cursor :=
      (follows_skipComment _).trans (follows_skipBlanks _)
    unfold skipGap
    dsimp only
    split
    · exact hgap
    · next h => exact (ih _).trans ((follows_lineEnd h).trans hgap)

theorem follows_skipByteOrderMark (s : Scan) : s.skipByteOrderMark.cursor.Follows s.cursor := by
  unfold skipByteOrderMark
  split
  · exact follows_skip 1 s.cursor
  · exact Follows.refl _

theorem advances_prepared (s : Scan) : s.AdvancesFrom s.prepared := by
  unfold prepared
  refine ((advances_dropStale _).of_follows
    ((follows_skipGap _ _).trans (follows_skipByteOrderMark s))).bind fun s' _ => .ok ?_
  rw [cursor_unwind]
  exact Follows.refl _

/-- **One token** is read by moving forward. -/
theorem advances_readNext (s : Scan) : s.AdvancesFrom s.readNext := by
  unfold readNext
  dsimp only
  split
  · exact advances_finish s
  · split
    · exact advances_readDirectiveToken s
    · split
      · exact advances_readSeparator s _
      · split
        · exact advances_readSeparator s _
        · exact advances_readMark s _ _

/-- **One token more** is read by moving forward, also where places of keys are forgotten. -/
theorem advances_fetch (s : Scan) :
    Advances (fun read : Scan × Bool => read.1.cursor) s.cursor s.fetch :=
  (advances_prepared s).bind fun ready _ => (advances_readNext ready).bind fun next _ =>
    (advances_dropStale next).bind fun _ _ => .ok (Follows.refl _)

end Scan

/-! ## All tokens

Tokens are read until the last one or until a fault. Each of them is fetched where the one before
ended, so that a fault of any of them is in the text. -/

/-- A fault comes from the token at which the reading ended. What it is over is before that token,
and so before the position that the reading began at. -/
theorem exceeds_of_readFrom {fuel : Nat} {s : Scan} {misuse : Misuse}
    (h : (Tokens.readFrom fuel s).fault = .misuse misuse) : Exceeds s.cursor.rest misuse := by
  induction fuel generalizing s with
  | zero => cases h
  | succ fuel ih =>
    have hfetch := Scan.advances_fetch s
    unfold Tokens.readFrom at h
    split at h
    · next fault hfault => exact hfetch.exceeds misuse (by rw [hfault]; exact congrArg _ h)
    · next next isLast hnext =>
      split at h
      · cases h
      · -- A fault over a later token is over what comes after this one.
        exact (ih h).of_suffix (hfetch.follows _ hnext)

/-- **All tokens**: a fault that is none of form is over something excessive in the text. -/
theorem exceeds_of_fault {cs : List Char} {misuse : Misuse}
    (h : (Tokens.ofChars cs).fault = .misuse misuse) : Exceeds cs misuse := by
  unfold Tokens.ofChars at h
  split at h
  · exact exceeds_of_readFrom h
  · cases h

end Ramlify.Yaml
