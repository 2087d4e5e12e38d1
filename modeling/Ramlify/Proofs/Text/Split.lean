import Mathlib.Data.List.TakeWhile
import Ramlify.Text.Split

/-!
# Ramlify — fields tell the text

A text is its fields with the separator between them, so texts with the same fields are the same
(**`split_injective`**), and fields without the separator are those of the text they make
(**`split_joined`**). The fields after the first one are those of the text after the first separator
(**`drop_split`**).
-/

namespace Ramlify.Text

variable {separator : Char}

/-- Fields with a separator between them. -/
def joined (separator : Char) : List (List Char) → List Char
  | [] => []
  | [field] => field
  | field :: fields => field ++ separator :: joined separator fields

/-- The text after the first separator, if there is one. -/
def after? (separator : Char) : List Char → Option (List Char)
  | [] => none
  | c :: cs => if c = separator then some cs else after? separator cs

/-- A separator stands behind every field but the last one. -/
theorem joined_cons (field : List Char) {fields : List (List Char)} (h : fields ≠ []) :
    joined separator (field :: fields) = field ++ separator :: joined separator fields := by
  cases fields with
  | nil => exact absurd rfl h
  | cons second fields => rfl

/-- What is in a text is a separator, or is in a field. -/
theorem mem_joined {fields : List (List Char)} {c : Char} (h : c ∈ joined separator fields) :
    c = separator ∨ ∃ field ∈ fields, c ∈ field := by
  induction fields with
  | nil => cases h
  | cons field rest ih =>
    -- The last field has no separator after it.
    by_cases hrest : rest = []
    · rw [hrest] at h
      exact Or.inr ⟨field, List.mem_cons_self, h⟩
    · rw [joined_cons field hrest, List.mem_append, List.mem_cons] at h
      rcases h with hfirst | rfl | hlater
      · exact Or.inr ⟨field, List.mem_cons_self, hfirst⟩
      · exact Or.inl rfl
      · rcases ih hlater with rfl | ⟨other, hother, hc⟩
        · exact Or.inl rfl
        · exact Or.inr ⟨other, List.mem_cons_of_mem field hother, hc⟩

/-- Joining the fields of a text gives the text. -/
theorem joined_split (cs : List Char) : joined separator (split separator cs) = cs := by
  -- A separator starts a new field, any other character goes to the first one.
  induction cs with
  | nil => rfl
  | cons c cs ih =>
    rw [split]
    split
    · next h =>
      rw [joined_cons [] (split_ne_nil separator cs), ih, h]
      rfl
    · cases hfields : split separator cs with
      | nil => exact absurd hfields (split_ne_nil separator cs)
      | cons field fields =>
        rw [hfields] at ih
        rw [← ih]
        cases fields with
        | nil => rfl
        | cons second fields => rfl

/-- The first field ends at the first separator. -/
theorem split_append_cons {field : List Char} (h : separator ∉ field) (rest : List Char) :
    split separator (field ++ separator :: rest) = field :: split separator rest := by
  induction field with
  | nil => exact if_pos rfl
  | cons c cs ih =>
    rw [List.mem_cons, not_or] at h
    rw [List.cons_append, split, if_neg (Ne.symm h.1), ih h.2]

/-- Without a separator there is one field. -/
theorem split_eq_singleton {field : List Char} (h : separator ∉ field) :
    split separator field = [field] := by
  induction field with
  | nil => rfl
  | cons c cs ih =>
    rw [List.mem_cons, not_or] at h
    rw [split, if_neg (Ne.symm h.1), ih h.2]

/-- Fields without the separator are those of the text they make. -/
theorem split_joined {fields : List (List Char)} (hfields : fields ≠ [])
    (h : ∀ field ∈ fields, separator ∉ field) :
    split separator (joined separator fields) = fields := by
  induction fields with
  | nil => exact absurd rfl hfields
  | cons field rest ih =>
    rw [List.forall_mem_cons] at h
    by_cases hrest : rest = []
    · rw [hrest]
      exact split_eq_singleton h.1
    · rw [joined_cons field hrest, split_append_cons h.1, ih hrest h.2]

theorem mem_of_mem_split {cs field : List Char} (h : field ∈ split separator cs) {c : Char}
    (hc : c ∈ field) : c ∈ cs := by
  induction cs generalizing field with
  | nil =>
    rw [split, List.mem_singleton] at h
    rw [h] at hc
    cases hc
  | cons d cs ih =>
    rw [split] at h
    split at h
    · rcases List.mem_cons.mp h with rfl | h
      · cases hc
      · exact List.mem_cons_of_mem d (ih h hc)
    · -- A character that is no separator is put in front of the first field of the rest.
      cases hfields : split separator cs with
      | nil => exact absurd hfields (split_ne_nil separator cs)
      | cons first fields =>
        rw [hfields] at h ih
        rcases List.mem_cons.mp h with rfl | h
        · rcases List.mem_cons.mp hc with rfl | hc
          · exact List.mem_cons_self
          · exact List.mem_cons_of_mem d (ih List.mem_cons_self hc)
        · exact List.mem_cons_of_mem d (ih (List.mem_cons_of_mem first h) hc)

/-- Texts with the same fields are the same. -/
theorem split_injective {cs ds : List Char} (h : split separator cs = split separator ds) :
    cs = ds :=
  calc cs = joined separator (split separator cs) := (joined_split cs).symm
    _ = joined separator (split separator ds) := by rw [h]
    _ = ds := joined_split ds

theorem drop_split (cs : List Char) :
    (split separator cs).drop 1 = ((after? separator cs).map (split separator)).getD [] := by
  induction cs with
  | nil => rfl
  | cons c cs ih =>
    rw [split, after?]
    split
    · rfl
    · rw [← ih]
      cases hfields : split separator cs with
      | nil => exact absurd hfields (split_ne_nil separator cs)
      | cons field fields => rfl

/-- Where there is a separator there is a text after it. -/
theorem exists_after?_of_mem {cs : List Char} (h : separator ∈ cs) :
    ∃ rest, after? separator cs = some rest := by
  induction cs with
  | nil => cases h
  | cons c cs ih =>
    rw [after?]
    split
    · exact ⟨cs, rfl⟩
    · next hne => exact ih ((List.mem_cons.mp h).resolve_left (Ne.symm hne))

theorem after?_eq_none {cs : List Char} (h : separator ∉ cs) : after? separator cs = none := by
  induction cs with
  | nil => rfl
  | cons c cs ih =>
    rw [List.mem_cons, not_or] at h
    rw [after?, if_neg (Ne.symm h.1), ih h.2]

/-- The fields after the first one tell the text after the first separator, or that there is
none. -/
theorem drop_split_eq_iff {cs ds : List Char} :
    (split separator cs).drop 1 = (split separator ds).drop 1
      ↔ after? separator cs = after? separator ds := by
  rw [drop_split, drop_split]
  -- Both have a separator, or only one, or none has; with one there is always a field after it.
  cases after? separator cs with
  | none =>
    cases after? separator ds with
    | none => exact iff_of_true rfl rfl
    | some rest => exact iff_of_false (Ne.symm (split_ne_nil separator rest)) nofun
  | some rest =>
    cases after? separator ds with
    | none => exact iff_of_false (split_ne_nil separator rest) nofun
    | some other =>
      constructor
      · intro h
        rw [split_injective (h : split separator rest = split separator other)]
      · rintro ⟨⟩
        rfl

/-! ## The first two fields

Values and queries are read as the first or the second field of a text, and what is behind is lost.
-/

/-- The first field is the whole text only if there is no separator. -/
theorem firstField_eq_self_iff {cs : List Char} :
    firstField separator cs = cs ↔ separator ∉ cs := by
  rw [firstField, List.takeWhile_eq_self_iff]
  constructor
  · intro h hmem
    simpa using h separator hmem
  · intro h c hc
    exact bne_iff_ne.mpr fun hsame => h (hsame ▸ hc)

/-- The first field is what stands before the first separator. -/
theorem firstField_append_cons {field : List Char} (h : separator ∉ field) (rest : List Char) :
    firstField separator (field ++ separator :: rest) = field := by
  have hfield := List.takeWhile_eq_self_iff.mp (firstField_eq_self_iff.mpr h)
  rw [firstField, List.takeWhile_append_of_pos hfield, List.takeWhile_cons_of_neg (by simp),
    List.append_nil]

/-- The second field is the first one of what stands behind. -/
theorem secondField?_append_cons {field : List Char} (h : separator ∉ field) (rest : List Char) :
    secondField? separator (field ++ separator :: rest) = some (firstField separator rest) := by
  have hfield := List.takeWhile_eq_self_iff.mp (firstField_eq_self_iff.mpr h)
  rw [secondField?, List.dropWhile_append_of_pos hfield, List.dropWhile_cons_of_neg (by simp)]

end Ramlify.Text
