import Ramlify.Proofs.Postman.Operation
import Ramlify.Proofs.Text.Split

/-!
# Ramlify — what a header block is read as

A header block has a line for each header, with a colon between name and value, and blank lines
between them do not matter. Names are read as they were written, in their order. Of a value only the
part before its first colon is read, so that addresses and times are cut.

* **`headerProperty?_headerLine`** — what the line of a header gives.
* **`keptDefault_eq_iff`** — which values are read in full. Variables are written with brackets of
  the length of their braces (`length_bracketChars`), so a value that is cut is another default.
* **`headerBlock_read`** — the schema of a block.
-/

namespace Ramlify.Unicode

/-- A blank in front is trimmed with the others. -/
theorem trim_cons_of_isBlank {c : Char} (h : isBlank c = true) (cs : List Char) :
    trim (c :: cs) = trim cs := by
  rw [trim, trimStart.eq_1 (c :: cs), List.dropWhile_cons_of_pos h]
  rfl

/-- Trimming at the start never makes a text longer. -/
theorem length_trimStart_le (cs : List Char) : (trimStart cs).length ≤ cs.length :=
  (List.dropWhile_suffix isBlank).length_le

theorem length_trim_le (cs : List Char) : (trim cs).length ≤ cs.length :=
  calc (trim cs).length = (trimStart (trimStart cs).reverse).length := List.length_reverse
    _ ≤ (trimStart cs).reverse.length := length_trimStart_le _
    _ = (trimStart cs).length := List.length_reverse
    _ ≤ cs.length := length_trimStart_le cs

end Ramlify.Unicode

namespace Ramlify.Postman

/-! ## Variables keep the length of a text

Braces are replaced by brackets one for one. So the default of a value has as many characters as the
part that was read of it, by which a value that was cut can be told. -/

/-- The closing braces are replaced where they stand. -/
theorem length_closeLast {cs closed : List Char} (h : closeLast cs = some closed) :
    closed.length = cs.length := by
  fun_induction closeLast cs generalizing closed with
  | case1 | case2 => cases h
  | case3 c rest _ later hlater ih =>
    cases h
    rw [List.length_cons, List.length_cons, ih hlater]
  | case4 rest _ _ _ =>
    cases h
    rfl
  | case5 => cases h

/-- Rewriting variables keeps the number of characters. -/
theorem length_bracketChars (cs : List Char) : (bracketChars cs).length = cs.length := by
  fun_induction bracketChars cs with
  | case1 rest closed hclosed =>
    rw [List.length_cons, List.length_cons, length_closeLast hclosed]
    rfl
  | case2 rest _ ih => rw [List.length_cons, List.length_cons, ih]
  | case3 c rest _ ih => rw [List.length_cons, List.length_cons, ih]
  | case4 => rfl

/-- A value that is not empty becomes a default with its variables rewritten. -/
theorem defaultOf_of_ne_nil {cs : List Char} (h : cs ≠ []) :
    defaultOf cs = .str (String.ofList (bracketChars cs)) :=
  if_neg (by rwa [List.isEmpty_iff])

/-! ## Lines

Each line is read on its own. A line without a colon, blank lines among them, gives nothing. -/

/-- A text that can stand on a line: not empty, without blank characters around it, and without a
line break. -/
structure OnLine (cs : List Char) : Prop where
  nonempty : cs ≠ []
  trimmed : Unicode.trim cs = cs
  unbroken : '\n' ∉ cs

instance (cs : List Char) : Decidable (OnLine cs) :=
  decidable_of_iff (cs ≠ [] ∧ Unicode.trim cs = cs ∧ '\n' ∉ cs)
    ⟨fun h => ⟨h.1, h.2.1, h.2.2⟩, fun h => ⟨h.nonempty, h.trimmed, h.unbroken⟩⟩

def isBlankLine (line : List Char) : Bool := (Unicode.trim line).isEmpty

/-- The line of a header. -/
def headerLine (header : String × String) : List Char :=
  header.1.toList ++ ':' :: ' ' :: header.2.toList

/-- The default that is read for a value: what stands before its first colon. -/
def keptDefault (value : List Char) : Value :=
  defaultOf (Unicode.trim (Text.firstField ':' value))

/-- A value is read in full exactly if there is no colon in it. -/
theorem keptDefault_eq_iff {value : List Char} (h : OnLine value) :
    keptDefault value = .str (String.ofList (bracketChars value)) ↔ ':' ∉ value := by
  rw [← Text.firstField_eq_self_iff, keptDefault]
  constructor
  · intro hsame
    -- What is read has the length of the value, and it is no longer than the first field.
    have hlength : (Unicode.trim (Text.firstField ':' value)).length = value.length := by
      unfold defaultOf at hsame
      split at hsame
      · cases hsame
      · rw [← length_bracketChars value,
          ← String.ofList_injective (Value.str.inj hsame), length_bracketChars]
    have hprefix : Text.firstField ':' value <+: value := List.takeWhile_prefix _
    refine hprefix.eq_of_length (Nat.le_antisymm hprefix.length_le ?_)
    rw [← hlength]
    exact Unicode.length_trim_le _
  · intro hfull
    rw [hfull, h.trimmed, defaultOf_of_ne_nil h.nonempty]

/-- A blank line has no name, so it is passed over. -/
theorem headerProperty?_of_isBlankLine {line : List Char} (h : isBlankLine line = true) :
    headerProperty? line = none :=
  if_pos h

/-- The line of a header gives its name, with what is read of its value. -/
theorem headerProperty?_headerLine {header : String × String} (hname : OnLine header.1.toList)
    (hcolon : ':' ∉ header.1.toList) (hline : isBlankLine (headerLine header) = false) :
    headerProperty? (headerLine header)
      = some (header.1, textProperty (keptDefault header.2.toList)) := by
  have hfirst : Unicode.trim (Text.firstField ':' (headerLine header)) = header.1.toList := by
    rw [headerLine, Text.firstField_append_cons hcolon, hname.trimmed]
  -- The blank after the colon is no part of the value.
  have hsecond : Unicode.trim ((Text.secondField? ':' (headerLine header)).getD [])
      = Unicode.trim (Text.firstField ':' header.2.toList) := by
    rw [headerLine, Text.secondField?_append_cons hcolon, Option.getD_some, Text.firstField,
      List.takeWhile_cons_of_pos rfl]
    exact Unicode.trim_cons_of_isBlank rfl _
  rw [isBlankLine] at hline
  rw [headerProperty?, if_neg (Bool.eq_false_iff.mp hline)]
  dsimp only
  rw [hfirst, hsecond, String.ofList_toList, keptDefault]

theorem filterMap_headerProperty? (lines : List (List Char)) :
    (lines.filter fun line => !isBlankLine line).filterMap headerProperty?
      = lines.filterMap headerProperty? := by
  rw [List.filterMap_filter]
  refine List.filterMap_congr fun line _ => ?_
  cases hline : isBlankLine line with
  | false => rfl
  | true => exact (headerProperty?_of_isBlankLine hline).symm

/-- The properties of a block are those of its lines, if a line has no line break in it. -/
theorem headerProperties_joined {lines : List (List Char)} (h : ∀ line ∈ lines, '\n' ∉ line) :
    headerProperties (Text.joined '\n' lines)
      = Entries.ofList (lines.filterMap headerProperty?) := by
  by_cases hlines : lines = []
  · rw [hlines]
    rfl
  · rw [headerProperties, Text.split_joined hlines h]

/-- **A header block is read up to the second colon of its lines.** Of lines with headers and blank
ones, where the names differ from each other:

* the schema has exactly the names of the headers, in their order, each for a text with the part of
  its value before the first colon as default;
* that is the complete value exactly if there is no colon in it. -/
theorem headerBlock_read {headers : Entries String String} {lines : List (List Char)}
    (hdistinct : (Entries.keys headers).Nodup)
    (hnames : ∀ header ∈ headers, OnLine header.1.toList ∧ ':' ∉ header.1.toList)
    (hvalues : ∀ header ∈ headers, OnLine header.2.toList)
    (hlines : ∀ line ∈ lines, '\n' ∉ line)
    (hblock : lines.filter (fun line => !isBlankLine line) = headers.map headerLine) :
    headersOf (.str (String.ofList (Text.joined '\n' lines)))
        = .ok (objectSchema (headers.map fun header =>
            (header.1, textProperty (keptDefault header.2.toList))))
      ∧ ∀ header ∈ headers, keptDefault header.2.toList = .str (bracketVariable header.2)
        ↔ ':' ∉ header.2.toList := by
  refine ⟨?_, fun header hheader => keptDefault_eq_iff (hvalues header hheader)⟩
  -- The lines that are not blank are those of the headers.
  have hread : lines.filterMap headerProperty? = headers.map fun header =>
      (header.1, textProperty (keptDefault header.2.toList)) := by
    rw [← filterMap_headerProperty?, hblock, List.filterMap_map,
      List.filterMap_eq_map_iff_forall_eq_some]
    intro header hheader
    have hline : headerLine header ∈ lines.filter fun line => !isBlankLine line :=
      hblock ▸ List.mem_map_of_mem hheader
    obtain ⟨hname, hcolon⟩ := hnames header hheader
    exact headerProperty?_headerLine hname hcolon (by simpa using (List.mem_filter.mp hline).2)
  rw [headersOf_str, String.toList_ofList, headerSchema, headerProperties_joined hlines, hread,
    Entries.ofList_of_nodup]
  rw [Entries.keys, List.map_map]
  exact hdistinct

/-- Headers whose values have a variable, a time of the day, and an address. -/
def sampleHeaders : Entries String String :=
  [("Accept", "{{format}}"), ("Date", "10:30"), ("Referer", "http://example.com/a")]

/-- The headers with blank lines around them. -/
def sampleLines : List (List Char) := ["".toList] ++ sampleHeaders.map headerLine ++ [" ".toList]

/-- The variable is read in full, the time and the address are cut. -/
theorem headerBlock_read_sample :
    (Entries.keys sampleHeaders).Nodup
      ∧ (∀ header ∈ sampleHeaders, OnLine header.1.toList ∧ ':' ∉ header.1.toList)
      ∧ (∀ header ∈ sampleHeaders, OnLine header.2.toList)
      ∧ (∀ line ∈ sampleLines, '\n' ∉ line)
      ∧ sampleLines.filter (fun line => !isBlankLine line) = sampleHeaders.map headerLine
      ∧ headersOf (.str (String.ofList (Text.joined '\n' sampleLines)))
        = .ok (objectSchema [("Accept", textProperty (.str "<<format>>")),
          ("Date", textProperty (.str "10")), ("Referer", textProperty (.str "http"))]) := by
  have hdistinct : (Entries.keys sampleHeaders).Nodup := by decide
  have hnames : ∀ header ∈ sampleHeaders, OnLine header.1.toList ∧ ':' ∉ header.1.toList := by
    decide
  have hvalues : ∀ header ∈ sampleHeaders, OnLine header.2.toList := by decide
  have hlines : ∀ line ∈ sampleLines, '\n' ∉ line := by decide
  have hblock : sampleLines.filter (fun line => !isBlankLine line)
      = sampleHeaders.map headerLine := by decide
  refine ⟨hdistinct, hnames, hvalues, hlines, hblock, ?_⟩
  exact (headerBlock_read hdistinct hnames hvalues hlines hblock).1

/-- The address in a header is cut, although it can stand on a line. -/
theorem referer_cut :
    OnLine "http://example.com/a".toList
      ∧ headersOf (.str "Referer: http://example.com/a")
        = .ok (objectSchema [("Referer", textProperty (.str "http"))])
      ∧ headersOf (.str "Referer: http://example.com/a")
        ≠ .ok (objectSchema [("Referer", textProperty
          (.str (bracketVariable "http://example.com/a")))]) := by
  have hread : headersOf (.str "Referer: http://example.com/a")
      = .ok (objectSchema [("Referer", textProperty (.str "http"))]) := rfl
  have hfull : bracketVariable "http://example.com/a" = "http://example.com/a" := by decide
  refine ⟨by decide, hread, ?_⟩
  rw [hread, hfull]
  simp [objectSchema, textProperty]

end Ramlify.Postman
