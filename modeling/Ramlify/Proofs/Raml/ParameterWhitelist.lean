import Ramlify.Proofs.Raml.PathParameters
import Ramlify.Proofs.Raml.RequiredParameters

/-!
# Ramlify — what parameters consist of

A parameter takes over those fields of its property that parameters can have and that go with its
type. Named parameters are read off properties in which references have become types, and are marked
if the schema lists them; parameters of the address are shown under their description, are texts
unless they have a type, and keep in annotations what there is no field for.

* **`get?_namedFields`**, **`get?_addressFields`**, **`get?_annotatedFields_eq_some_iff`** — what
  the fields read as before a parameter is accepted.
* **`isWhitelisted_of_acceptParameter?`** — what is left of them afterwards.
* **`parameters_whitelisted`** — which parameters a schema gives, and with which fields.
-/

namespace Ramlify

/-- A value is a text if the test for this text says so. -/
theorem Value.isText_iff {v : Value} {text : String} : v.isText text = true ↔ v = .str text := by
  cases v with
  | str s => rw [isText, beq_iff_eq, str.injEq]
  | null | bool | int | float | list | obj =>
    refine iff_of_false Bool.false_ne_true ?_
    rintro ⟨⟩

/-- A member that is not vacant was found under its name. -/
theorem Members.get?_of_find_given {m : Members} {name : String} {v : Value}
    (h : Members.find m name = v) (hgiven : v.isVacant = false) : Entries.get? m name = some v :=
  Members.get?_of_find h fun hnull => by
    rw [hnull] at hgiven
    cases hgiven

end Ramlify

namespace Ramlify.Schema

/-! ## Accepting

Which fields go with which type is a table. The lemmas read it for the three groups of fields, and
the structure says of a parameter that its fields are in the table for its type. -/

/-- A parameter of an accepted type, without fields that do not go with it. -/
structure IsWhitelisted (parameter : Members) : Prop where
  type : ∀ v, Entries.get? parameter "type" = some v → ∃ type ∈ parameterTypes, v = .str type
  text : ∀ field ∈ textFieldNames, field ∈ Entries.keys parameter →
    Entries.get? parameter "type" = some (.str "string")
  number : ∀ field ∈ numberFieldNames, field ∈ Entries.keys parameter →
    ∃ type ∈ ["integer", "number"], Entries.get? parameter "type" = some (.str type)
  known : ∀ field ∈ Entries.keys parameter,
    field ∈ "type" :: (commonFieldNames ++ textFieldNames ++ numberFieldNames)

/-- A type that is accepted is one that parameters may have. -/
theorem exists_type_of_isAccepted {v : Value} (h : isAccepted (some v) = true) :
    ∃ type ∈ parameterTypes, v = .str type := by
  rw [isAccepted, Option.all_some, List.any_eq_true] at h
  obtain ⟨type, hmem, htext⟩ := h
  exact ⟨type, hmem, Value.isText_iff.mp htext⟩

theorem fieldFits_of_text (type : Value) {field : String} (h : field ∈ textFieldNames) :
    fieldFits type field = type.isText "string" := by
  simp only [textFieldNames, List.mem_cons, List.not_mem_nil, or_false] at h
  rcases h with rfl | rfl | rfl | rfl <;>
    simp [fieldFits, commonFieldNames, textFieldNames, numberFieldNames]

/-- Fields of numbers go with the two types of numbers. -/
theorem fieldFits_of_number (type : Value) {field : String} (h : field ∈ numberFieldNames) :
    fieldFits type field = (type.isText "integer" || type.isText "number") := by
  simp only [numberFieldNames, List.mem_cons, List.not_mem_nil, or_false] at h
  rcases h with rfl | rfl <;>
    simp [fieldFits, commonFieldNames, textFieldNames, numberFieldNames]

/-- A field that goes with some type is one of the table. -/
theorem mem_of_fieldFits {type : Value} {field : String} (h : fieldFits type field = true) :
    field ∈ "type" :: (commonFieldNames ++ textFieldNames ++ numberFieldNames) := by
  simp only [fieldFits, Bool.or_eq_true, Bool.and_eq_true, beq_iff_eq, decide_eq_true_eq] at h
  simp only [List.mem_cons, List.mem_append]
  tauto

section

variable {fields kept : Members} (h : acceptParameter? fields = some kept)

include h

/-- A field of an accepted parameter is kept as it is if it goes with the type. -/
theorem get?_acceptParameter? (field : String) :
    Entries.get? kept field
      = if fieldFits (Members.find kept "type") field then Entries.get? fields field else none := by
  rw [acceptParameter?_eq] at h
  split at h
  · cases h
    have hread := Entries.get?_filter_keys fields (fieldFits (Members.find fields "type"))
    -- The type itself is kept, so it may be read before or after.
    have htype : Members.find (fields.filter fun field =>
        fieldFits (Members.find fields "type") field.1) "type" = Members.find fields "type" := by
      rw [Members.find, hread]
      rfl
    rw [htype]
    exact hread field
  · cases h

theorem get?_type_acceptParameter? : Entries.get? kept "type" = Entries.get? fields "type" := by
  rw [get?_acceptParameter? h]
  rfl

/-- A parameter that was accepted has only fields that go with its type. -/
theorem isWhitelisted_of_acceptParameter? : IsWhitelisted kept := by
  -- Each field that is left went with the type, which accepting has kept.
  have hfits : ∀ field ∈ Entries.keys kept,
      fieldFits (Members.find kept "type") field = true := by
    intro field hfield
    by_contra hno
    rw [← Entries.isSome_get?_iff, get?_acceptParameter? h, if_neg hno] at hfield
    cases hfield
  have htype : ∀ {type : String}, (Members.find kept "type").isText type = true →
      Entries.get? kept "type" = some (.str type) :=
    fun htext => Members.get?_of_find (Value.isText_iff.mp htext) nofun
  refine ⟨fun v hv => ?_, fun field hfield hmem => ?_, fun field hfield hmem => ?_,
    fun field hmem => mem_of_fieldFits (hfits field hmem)⟩
  · rw [get?_type_acceptParameter? h] at hv
    rw [acceptParameter?_eq, hv] at h
    split at h
    · next haccepted => exact exists_type_of_isAccepted haccepted
    · cases h
  · have hfit := hfits field hmem
    rw [fieldFits_of_text _ hfield] at hfit
    exact htype hfit
  · have hfit := hfits field hmem
    rw [fieldFits_of_number _ hfield, Bool.or_eq_true] at hfit
    rcases hfit with htext | htext
    · exact ⟨"integer", List.mem_cons_self, htype htext⟩
    · exact ⟨"number", by simp, htype htext⟩

/-- An accepted parameter is accepted again as it is. -/
theorem acceptParameter?_of_accepted : acceptParameter? kept = some kept := by
  have htype := get?_type_acceptParameter? h
  rw [acceptParameter?_eq] at h ⊢
  rw [htype]
  split at h
  · next haccepted =>
    cases h
    rw [if_pos haccepted, Members.find, htype, List.filter_filter]
    simp only [Members.find, Bool.and_self]
  · cases h

end

/-- Accepted parameters are accepted again as they are. -/
theorem acceptParameters_idempotent (parameters : List (String × Members)) :
    acceptParameters (acceptParameters parameters) = acceptParameters parameters := by
  rw [acceptParameters, List.filterMap_eq_map_iff_forall_eq_some (g := id) |>.mpr, List.map_id]
  intro parameter hparameter
  obtain ⟨source, _, hsource⟩ := List.mem_filterMap.mp hparameter
  obtain ⟨kept, hkept, rfl⟩ := Option.map_eq_some_iff.mp hsource
  show (acceptParameter? kept).map _ = some (source.1, kept)
  rw [acceptParameter?_of_accepted hkept, Option.map_some]

/-- The parameters that are the members of a value. -/
theorem acceptParametersOf_parameterMap (parameters : List (String × Members)) :
    acceptParametersOf (parameterMap parameters)
      = .ok (parameterMap (acceptParameters parameters)) := by
  unfold acceptParametersOf
  refine Outcome.bind_eq_ok.mpr ⟨_, rfl, ?_⟩
  have hsame : (parameters.map fun parameter => (parameter.1, Value.obj parameter.2)).mapM
      (fun parameter => do return (parameter.1, ← parameter.2.members)) = .ok parameters := by
    rw [List.mapM_map]
    exact (Outcome.mapM_eq_ok (g := id) fun _ _ => rfl).trans (by rw [List.map_id])
  refine Outcome.bind_eq_ok.mpr ⟨parameters, hsame, rfl⟩

end Ramlify.Schema

namespace Ramlify.Raml

open Schema (carriedFieldNames fieldFits IsWhitelisted isAccepted typedObject)

/-! ## Named parameters

A named parameter takes over the fields of its property. Only `required` can be its own, since the
schema may list the name. -/

/-- What the fields of a named parameter hold: what its property holds under the same name, except
that the parameter is marked if its name is required. -/
inductive NamedField (required : Value) (name : String) (property : Members) :
    String → Value → Prop where
  | required (h : required.holds name = .ok true) :
      NamedField required name property "required" (.bool true)
  | own {field : String} {v : Value} (hfield : field ∈ carriedFieldNames)
      (hv : Entries.get? property field = some v) (hgiven : v ≠ .null)
      (hfree : field = "required" → required.holds name ≠ .ok true) :
      NamedField required name property field v

/-- A field that is taken over, if it is not null. -/
theorem get?_carriedFields_eq_some_iff {schema : Members} {field : String} {v : Value} :
    Entries.get? (Schema.carriedFields schema) field = some v
      ↔ field ∈ carriedFieldNames ∧ Entries.get? schema field = some v ∧ v ≠ .null := by
  rw [Schema.carriedFields_eq, Schema.get?_filterMap_names, Members.find]
  split
  · next hfield =>
    rw [and_iff_right hfield]
    -- A field that is null in the schema is not taken over.
    cases Entries.get? schema field with
    | none => simp [Value.nonNull?]
    | some w =>
      rw [Option.getD_some, Option.some_inj]
      constructor
      · intro hread
        cases w with
        | null => cases hread
        | bool | int | float | str | list | obj =>
          cases hread
          refine ⟨rfl, ?_⟩
          rintro ⟨⟩
      · rintro ⟨rfl, hgiven⟩
        exact (Value.nonNull?_eq_some_iff hgiven).mpr rfl
  · next hfield =>
    refine iff_of_false ?_ fun h => hfield h.1
    rintro ⟨⟩

/-- The fields of a named parameter are those that the relation tells. -/
theorem get?_namedFields {required : Value} {name : String} {isRequired : Bool}
    (h : required.holds name = .ok isRequired) {property : Members} {field : String} {v : Value} :
    Entries.get? (namedFields isRequired property) field = some v
      ↔ NamedField required name property field v := by
  rw [namedFields, Schema.get?_orderFirst]
  cases isRequired with
  -- The name is listed: the mark is put over whatever the property has under it.
  | true =>
    rw [if_pos rfl, Entries.get?_put]
    constructor
    · intro hread
      split at hread
      · next hfield =>
        cases hread
        exact hfield ▸ .required h
      · next hfield =>
        obtain ⟨hcarried, hv, hgiven⟩ := get?_carriedFields_eq_some_iff.mp hread
        exact .own hcarried hv hgiven fun hsame => absurd hsame.symm hfield
    · rintro (_ | ⟨hcarried, hv, hgiven, hfree⟩)
      · exact if_pos rfl
      · rw [if_neg fun hsame => hfree hsame.symm h]
        exact get?_carriedFields_eq_some_iff.mpr ⟨hcarried, hv, hgiven⟩
  -- The name is not listed: all fields are those of the property.
  | false =>
    rw [if_neg Bool.false_ne_true, get?_carriedFields_eq_some_iff]
    have hno : required.holds name ≠ .ok true := by
      rw [h]
      rintro ⟨⟩
    constructor
    · rintro ⟨hcarried, hv, hgiven⟩
      exact .own hcarried hv hgiven fun _ => hno
    · rintro (htrue | ⟨hcarried, hv, hgiven, _⟩)
      · exact absurd htrue hno
      · exact ⟨hcarried, hv, hgiven⟩

/-! ## Parameters of the address

The fields of such a parameter come from its property in several ways, not all of them under the
same name or with the same value. The relation has a case for each. -/

/-- What the fields of a parameter of the address hold: what its property holds under the same name,
except that the parameter is shown under a description, is a text without a type, and has
annotations if these are enabled. -/
inductive AddressField (enabled : Bool) (property : Members) : String → Value → Prop where
  | shown (hgiven : (Members.find property "description").isVacant = false) :
      AddressField enabled property "displayName" (Members.find property "description")
  | text (hvacant : (Members.find property "type").isVacant = true) :
      AddressField enabled property "type" (.str "string")
  | items {v : Value} (hv : Entries.get? property "items" = some v) :
      AddressField enabled property "items" v
  | format {v : Value} (hv : Entries.get? property "format" = some v)
      (hgiven : v.isVacant = false) : AddressField enabled property "format" v
  | annotated {kind : String} {v : Value} (henabled : enabled = true)
      (hkind : kind ∈ annotatedNames) (hv : Entries.get? property kind = some v) :
      AddressField enabled property (annotationName kind) v
  | own {field : String} {v : Value} (hfield : field ∈ carriedFieldNames)
      (hv : Entries.get? property field = some v) (hgiven : v ≠ .null)
      (hshown : field = "displayName" → (Members.find property "description").isVacant = true)
      (htype : field = "type" → v.isVacant = false) : AddressField enabled property field v

/-- What a field of a parameter of the address reads as. Those that are written one by one are not
taken over before, except the text that is shown. -/
theorem get?_addressFields_eq (property : Members) (field : String) :
    Entries.get? (addressFields property) field
      = if field = "type" then
          some (if (Members.find property "type").isVacant then .str "string"
            else Members.find property "type")
        else if field = "format" then (Members.find property "format").given?
        else if field = "items" then Entries.get? property "items"
        else if field = "displayName" then
          (Members.find property "description").given?.or
            (Entries.get? (Schema.carriedFields property) "displayName")
        else Entries.get? (Schema.carriedFields property) field := by
  have hnew : Entries.get? (Schema.carriedFields property) "format" = none
      ∧ Entries.get? (Schema.carriedFields property) "items" = none := by
    rw [Schema.carriedFields_eq, Schema.get?_filterMap_names, Schema.get?_filterMap_names]
    exact ⟨if_neg (by decide), if_neg (by decide)⟩
  by_cases htype : field = "type"
  · rw [if_pos htype, htype, get?_type_addressFields]
  · unfold addressFields
    dsimp only
    rw [if_neg htype, Entries.get?_put_of_ne _ _ (Ne.symm htype), Members.get?_putGiven]
    -- What is written last counts: the format, then the items, then the text that is shown.
    cases Entries.get? property "items" with
    | none =>
      simp only [Members.get?_putGiven, eq_comm (b := field)]
      by_cases hname : field = "items" <;> simp [hname, hnew]
    | some items =>
      simp only [Members.get?_putGiven, Entries.get?_put, eq_comm (b := field)]
      by_cases hname : field = "items" <;> simp [hname, hnew]

/-- The fields of a parameter of the address, before there are annotations. -/
theorem get?_addressFields {property : Members} {field : String} {v : Value} :
    Entries.get? (addressFields property) field = some v
      ↔ AddressField false property field v := by
  rw [get?_addressFields_eq]
  constructor
  · -- From the fields to the relation: the name of the field tells where it was put, in the order
    -- from the last to the first.
    intro hread
    split at hread
    · next htype =>
      subst htype
      cases hread
      split
      · next hvacant => exact .text hvacant
      · next hgiven =>
        have hgiven : (Members.find property "type").isVacant = false :=
          Bool.eq_false_iff.mpr hgiven
        exact .own (by decide) (Members.get?_of_find_given rfl hgiven)
          (fun hnull => by rw [hnull] at hgiven; cases hgiven)
          (fun hsame => absurd hsame (by decide)) fun _ => hgiven
    · next htype =>
      split at hread
      · next hformat =>
        obtain ⟨hv, hgiven⟩ := Value.given?_eq_some_iff.mp hread
        exact hformat ▸ .format (Members.get?_of_find_given hv hgiven) hgiven
      · split at hread
        · next hitems => exact hitems ▸ .items hread
        · split at hread
          · next hshown =>
            subst hshown
            rcases Option.or_eq_some_iff.mp hread with hdescription | ⟨hnone, hown⟩
            · obtain ⟨rfl, hgiven⟩ := Value.given?_eq_some_iff.mp hdescription
              exact .shown hgiven
            · obtain ⟨hcarried, hv, hgiven⟩ := get?_carriedFields_eq_some_iff.mp hown
              have hvacant : (Members.find property "description").isVacant = true := by
                by_contra hgiven
                rw [Value.given?, if_neg hgiven] at hnone
                cases hnone
              exact .own hcarried hv hgiven (fun _ => hvacant) fun hsame =>
                absurd hsame (by decide)
          · next hshown =>
            obtain ⟨hcarried, hv, hgiven⟩ := get?_carriedFields_eq_some_iff.mp hread
            exact .own hcarried hv hgiven (fun h => absurd h hshown) fun h => absurd h htype
  · -- From the relation to the fields, case by case.
    intro hfield
    cases hfield with
    | shown hgiven =>
      rw [if_neg (by decide), if_neg (by decide), if_neg (by decide), if_pos rfl,
        Value.given?_eq_some_iff.mpr ⟨rfl, hgiven⟩, Option.some_or]
    | text hvacant => rw [if_pos rfl, if_pos hvacant]
    | items hv => rw [if_neg (by decide), if_neg (by decide), if_pos rfl, hv]
    | format hv hgiven =>
      rw [if_neg (by decide), if_pos rfl, Value.given?_eq_some_iff, Members.find, hv]
      exact ⟨rfl, hgiven⟩
    | annotated henabled => cases henabled
    | own hcarried hv hgiven hshown htype =>
      have hread := get?_carriedFields_eq_some_iff.mpr ⟨hcarried, hv, hgiven⟩
      split
      · next h =>
        subst h
        rw [Members.find, hv, Option.getD_some, if_neg (Bool.eq_false_iff.mp (htype rfl))]
      · split
        · next h => exact absurd (h ▸ hcarried) (by decide)
        · split
          · next h => exact absurd (h ▸ hcarried) (by decide)
          · split
            · next h =>
              subst h
              rw [Value.given?, if_pos (hshown rfl), Option.none_or, hread]
            · exact hread

/-! ## Annotations

Annotations are put to the fields of a parameter under names that begin with a bracket, so they take
the place of none of them. -/

/-- The annotations that are written for a property. -/
def annotationsFor (property : Members) (kinds : List String) : Members :=
  kinds.filterMap fun kind =>
    (Entries.get? property kind).map fun v => (annotationName kind, v)

/-- Fields with the annotations for a property, if these are enabled. -/
def annotatedFields (enabled : Bool) (property fields : Members) : Members :=
  if enabled then Entries.putAll fields (annotationsFor property annotatedNames) else fields

/-- Recording a kind leaves the switch as it is. -/
theorem Annotations.enabled_record (a : Annotations) (kind : String) :
    (a.record kind).enabled = a.enabled := by
  unfold record
  split <;> rfl

/-- Writing annotations always succeeds. What is written does not depend on what was before. -/
theorem exists_annotateMembers (property : Members) (fields : Members) (a : Annotations) :
    ∃ a', annotateMembers property fields a = .ok (annotatedFields a.enabled property fields, a')
      ∧ a'.enabled = a.enabled := by
  unfold annotateMembers annotatedFields
  generalize annotatedNames = kinds
  induction kinds generalizing fields a with
  | nil =>
    refine ⟨a, ?_, rfl⟩
    cases a.enabled <;> rfl
  | cons kind kinds ih =>
    rw [List.foldlM_cons, annotationsFor, List.filterMap_cons]
    cases hmember : Entries.get? property kind with
    | none =>
      obtain ⟨a', h, henabled⟩ := ih fields a
      exact ⟨a', Pass.bind_eq_ok.mpr ⟨fields, a, rfl, h⟩, henabled⟩
    | some member =>
      -- With the switch off the fields stay, with it on the annotation is put to them.
      cases hon : a.enabled with
      | false =>
        obtain ⟨a', h, henabled⟩ := ih fields a
        rw [hon] at h henabled
        refine ⟨a', Pass.bind_eq_ok.mpr ⟨fields, a, ?_, h⟩, henabled⟩
        show Except.ok (a.annotate fields kind member) = _
        rw [Annotations.annotate, hon]
        rfl
      | true =>
        have hrecord : (a.record kind).enabled = true := by rw [a.enabled_record, hon]
        obtain ⟨a', h, henabled⟩ :=
          ih (Entries.put fields (annotationName kind) member) (a.record kind)
        rw [hrecord] at h henabled
        refine ⟨a', Pass.bind_eq_ok.mpr ⟨_, _, ?_, h⟩, henabled⟩
        show Except.ok (a.annotate fields kind member) = _
        rw [Annotations.annotate, hon]
        rfl

/-- The annotations for a property are its members of certain names. -/
theorem mem_annotationsFor_iff {property : Members} {kinds : List String} {field : String}
    {v : Value} : (field, v) ∈ annotationsFor property kinds
      ↔ ∃ kind ∈ kinds, field = annotationName kind ∧ Entries.get? property kind = some v := by
  simp only [annotationsFor, List.mem_filterMap, Option.map_eq_some_iff, Prod.mk.injEq]
  constructor
  · rintro ⟨kind, hkind, _, hv, rfl, rfl⟩
    exact ⟨kind, hkind, rfl, hv⟩
  · rintro ⟨kind, hkind, rfl, hv⟩
    exact ⟨kind, hkind, v, hv, rfl, rfl⟩

/-- Different members become different annotations. -/
theorem nodup_annotationsFor (property : Members) {kinds : List String} (h : kinds.Nodup) :
    (Entries.keys (annotationsFor property kinds)).Nodup := by
  rw [Entries.keys, annotationsFor, List.map_filterMap]
  refine h.filterMap fun kind kind' name hname hname' => ?_
  simp only [Option.mem_def, Option.map_eq_some_iff] at hname hname'
  obtain ⟨_, ⟨_, _, rfl⟩, rfl⟩ := hname
  obtain ⟨_, ⟨_, _, rfl⟩, hsame⟩ := hname'
  exact (annotationName_injective hsame).symm

/-- Without annotations a field has one of the names that parameters take over or that are written
one by one. -/
theorem AddressField.mem_of_disabled {property : Members} {field : String} {v : Value}
    (h : AddressField false property field v) :
    field ∈ "items" :: "format" :: carriedFieldNames := by
  cases h with
  | shown | text | items | format => decide
  | annotated henabled => cases henabled
  | own hcarried => exact List.mem_cons_of_mem _ (List.mem_cons_of_mem _ hcarried)

/-- With annotations enabled there are these besides the other fields. -/
theorem addressField_true_iff {property : Members} {field : String} {v : Value} :
    AddressField true property field v
      ↔ (field, v) ∈ annotationsFor property annotatedNames
        ∨ AddressField false property field v := by
  rw [mem_annotationsFor_iff]
  -- Of the kinds of fields only annotations depend on whether they are enabled.
  constructor
  · intro h
    cases h with
    | shown h => exact Or.inr (.shown h)
    | text h => exact Or.inr (.text h)
    | items h => exact Or.inr (.items h)
    | format h h' => exact Or.inr (.format h h')
    | annotated _ hkind hv => exact Or.inl ⟨_, hkind, rfl, hv⟩
    | own h hv hgiven hshown htype => exact Or.inr (.own h hv hgiven hshown htype)
  · rintro (⟨kind, hkind, rfl, hv⟩ | h)
    · exact .annotated rfl hkind hv
    · cases h with
      | shown h => exact .shown h
      | text h => exact .text h
      | items h => exact .items h
      | format h h' => exact .format h h'
      | annotated henabled => cases henabled
      | own h hv hgiven hshown htype => exact .own h hv hgiven hshown htype

/-- **The fields of a parameter of the address**, annotations included. -/
theorem get?_annotatedFields_eq_some_iff {enabled : Bool} {property : Members} {field : String}
    {v : Value} :
    Entries.get? (annotatedFields enabled property (addressFields property)) field = some v
      ↔ AddressField enabled property field v := by
  cases enabled with
  | false => exact get?_addressFields
  | true =>
    have hnodup := nodup_annotationsFor property (by decide : annotatedNames.Nodup)
    rw [annotatedFields, if_pos rfl, Entries.get?_putAll_of_nodup _ hnodup,
      Option.or_eq_some_iff, get?_addressFields, addressField_true_iff]
    constructor
    · exact Or.imp Entries.mem_of_get? And.right
    · refine Or.imp (Entries.get?_of_mem hnodup) fun hfield => ⟨?_, hfield⟩
      -- No annotation has a name that other fields have.
      have hnames : ∀ kind ∈ annotatedNames,
          annotationName kind ∉ "items" :: "format" :: carriedFieldNames := by decide
      rw [Entries.get?_eq_none_iff, Entries.keys, List.mem_map]
      rintro ⟨⟨_, w⟩, hw, rfl⟩
      obtain ⟨kind, hkind, hname, _⟩ := mem_annotationsFor_iff.mp hw
      exact hnames kind hkind (hname ▸ hfield.mem_of_disabled)

/-- A parameter of the address is always made. -/
theorem exists_addressParameter (property : String × Members) (a : Annotations) :
    ∃ a', addressParameter property a
        = .ok ((property.1, annotatedFields a.enabled property.2 (addressFields property.2)), a')
      ∧ a'.enabled = a.enabled := by
  obtain ⟨a', h, henabled⟩ := exists_annotateMembers property.2 (addressFields property.2) a
  exact ⟨a', Pass.bind_eq_ok.mpr ⟨_, a', h, rfl⟩, henabled⟩

/-- The parameters of the address that some properties give: one for each of them. -/
theorem exists_mapM_addressParameter (properties : List (String × Members)) (a : Annotations) :
    ∃ a', properties.mapM addressParameter a
        = .ok (properties.map fun property =>
            (property.1, annotatedFields a.enabled property.2 (addressFields property.2)), a')
      ∧ a'.enabled = a.enabled := by
  -- Whether annotations are enabled stays the same from one property to the next.
  induction properties generalizing a with
  | nil => exact ⟨a, rfl, rfl⟩
  | cons property properties ih =>
    obtain ⟨a₁, hfirst, henabled⟩ := exists_addressParameter property a
    obtain ⟨a₂, hrest, henabled'⟩ := ih a₁
    rw [henabled] at hrest henabled'
    refine ⟨a₂, ?_, henabled'⟩
    rw [List.mapM_cons]
    exact Pass.bind_eq_ok.mpr ⟨_, a₁, hfirst, Pass.bind_eq_ok.mpr ⟨_, a₂, hrest, rfl⟩⟩

/-! ## All parameters of a schema

Both kinds of parameters are accepted in the same way, and only their fields are told apart. So the
statement takes what is known of the fields as a relation. -/

/-- The parameters that properties give, if it is known what each field of one may hold: a parameter
has exactly those fields that go with its type, and a property is left out exactly if it has a type
that is not accepted. -/
structure Whitelists (Field : String → Members → String → Value → Prop) (properties : Members)
    (written : Option Value) : Prop where
  shape : written = if properties.isEmpty then none else some (.obj (parametersIn written))
  sound : ∀ name v, (name, v) ∈ parametersIn written → ∃ property parameter,
    Entries.get? properties name = some (.obj property) ∧ v = .obj parameter
      ∧ IsWhitelisted parameter
      ∧ ∀ field w, Entries.get? parameter field = some w
        ↔ fieldFits (Members.find parameter "type") field = true ∧ Field name property field w
  complete : ∀ name property, Entries.get? properties name = some (.obj property) →
    (name ∉ Entries.keys (parametersIn written)
      ↔ ∃ type, Field name property "type" type
        ∧ ∀ other ∈ Schema.parameterTypes, type ≠ .str other)

/-- Parameters whose fields are known are whitelisted by being accepted. -/
theorem whitelists_accepted {Field : String → Members → String → Value → Prop}
    {properties : Members} (hnames : (Entries.keys properties).Nodup)
    (fieldsOf : String → Members → Members)
    (hfields : ∀ name property field v, (name, .obj property) ∈ properties →
      (Entries.get? (fieldsOf name property) field = some v ↔ Field name property field v))
    {written : Option Value} {parameters : List (String × Members)}
    (hparameters : ∀ name fields, (name, fields) ∈ parameters
      ↔ ∃ property, (name, .obj property) ∈ properties ∧ fields = fieldsOf name property)
    (hshape : written = if properties.isEmpty then none else some (.obj (parametersIn written)))
    (hwritten : parametersIn written = acceptedMembers parameters) :
    Whitelists Field properties written where
  shape := hshape
  sound := by
    intro name v hv
    rw [hwritten] at hv
    obtain ⟨fields, kept, hmem, hkept, rfl⟩ := mem_acceptedMembers_iff.mp hv
    obtain ⟨property, hproperty, rfl⟩ := (hparameters name fields).mp hmem
    refine ⟨property, kept, Entries.get?_of_mem hnames hproperty, rfl,
      Schema.isWhitelisted_of_acceptParameter? hkept, fun field w => ?_⟩
    rw [Schema.get?_acceptParameter? hkept, ← hfields name property field w hproperty]
    split
    · next hfits => exact (and_iff_right hfits).symm
    · next hfits => exact ⟨nofun, fun h => absurd h.1 hfits⟩
  complete := by
    intro name property hget
    have hproperty := Entries.mem_of_get? hget
    rw [hwritten, mem_keys_acceptedMembers_iff]
    -- A name is that of one property, so the parameter of that name is the one made of it.
    have honly : (∃ fields, (name, fields) ∈ parameters
          ∧ isAccepted (Entries.get? fields "type") = true)
        ↔ isAccepted (Entries.get? (fieldsOf name property) "type") = true := by
      constructor
      · rintro ⟨fields, hmem, htype⟩
        obtain ⟨other, hother, rfl⟩ := (hparameters name fields).mp hmem
        have hsame := hget.symm.trans (Entries.get?_of_mem hnames hother)
        cases hsame
        exact htype
      · exact fun htype => ⟨_, (hparameters name _).mpr ⟨property, hproperty, rfl⟩, htype⟩
    rw [honly]
    have hread : ∀ type, Entries.get? (fieldsOf name property) "type" = some type
        ↔ Field name property "type" type := fun type => hfields name property "type" type hproperty
    cases htype : Entries.get? (fieldsOf name property) "type" with
    | none =>
      refine iff_of_false (fun hno => hno rfl) ?_
      rintro ⟨type, hfield, _⟩
      rw [← hread, htype] at hfield
      cases hfield
    | some type =>
      constructor
      · intro hno
        refine ⟨type, (hread type).mp htype, ?_⟩
        rintro other hother rfl
        exact hno (Schema.isAccepted_str_iff.mpr hother)
      · rintro ⟨other, hfield, hother⟩ haccepted
        cases htype.symm.trans ((hread other).mpr hfield)
        obtain ⟨name, hname, rfl⟩ := Schema.exists_type_of_isAccepted haccepted
        exact hother name hname rfl

section

variable {schema properties : Members} (hnames : (Entries.keys properties).Nodup)
  (hproperties : Members.find schema "properties" = .obj properties)

include hnames hproperties

/-- What the fields of the named parameters hold, references of the properties turned into types. -/
theorem whitelists_named (hobjects : ∀ p ∈ properties, ∃ fields, p.2 = .obj fields)
    {written : Option Value} (h : namedParameters (.obj schema) = .ok written) :
    Whitelists (fun name property => NamedField (listOrEmpty schema "required") name
      (typedObject property)) properties written := by
  rw [namedParameters_obj] at h
  obtain ⟨parameters, hparameters, hwritten⟩ := exists_of_namedParametersOf h hproperties
  have hmem : ∀ name now, (name, now) ∈ objectProperties (typedObject properties)
      ↔ ∃ property, (name, .obj property) ∈ properties ∧ now = typedObject property := by
    intro name now
    rw [mem_objectProperties_iff, Schema.typedObject_properties hnames hobjects]
    simp only [Entries.mapValues, List.mem_map, Prod.mk.injEq]
    constructor
    · rintro ⟨⟨name, v⟩, hmem, rfl, hv⟩
      obtain ⟨property, rfl⟩ := hobjects _ hmem
      rw [Schema.typed_obj, Value.obj.injEq] at hv
      exact ⟨property, hmem, hv.symm⟩
    · rintro ⟨property, hmem, rfl⟩
      exact ⟨_, hmem, rfl, Schema.typed_obj property⟩
  -- Every name of a property was looked up in what is required.
  have hheld : ∀ name property, (name, .obj property) ∈ properties →
      ∃ isRequired, (listOrEmpty schema "required").holds name = .ok isRequired := by
    intro name property hproperty
    obtain ⟨_, hstep⟩ :=
      Outcome.exists_of_mapM hparameters ((hmem name _).mpr ⟨property, hproperty, rfl⟩)
    obtain ⟨isRequired, hheld, _⟩ := namedParameter_eq_ok.mp hstep
    exact ⟨isRequired, hheld⟩
  refine whitelists_accepted hnames (fun name property =>
    namedFields (((listOrEmpty schema "required").holds name).toOption.getD false)
      (typedObject property)) ?_ ?_ ?_ hwritten
  · intro name property field v hproperty
    obtain ⟨isRequired, hheld⟩ := hheld name property hproperty
    rw [hheld]
    exact get?_namedFields hheld
  · intro name fields
    rw [Outcome.mem_mapM_iff hparameters]
    constructor
    · rintro ⟨⟨name, now⟩, hnow, hstep⟩
      obtain ⟨isRequired, hheld, hresult⟩ := namedParameter_eq_ok.mp hstep
      obtain ⟨property, hproperty, rfl⟩ := (hmem name now).mp hnow
      cases hresult
      exact ⟨property, hproperty, by rw [hheld]; rfl⟩
    · rintro ⟨property, hproperty, rfl⟩
      obtain ⟨isRequired, hheld⟩ := hheld name property hproperty
      refine ⟨_, (hmem name _).mpr ⟨property, hproperty, rfl⟩, namedParameter_eq_ok.mpr ?_⟩
      exact ⟨isRequired, hheld, by rw [hheld]; rfl⟩
  · by_cases hgiven : properties = []
    · rw [namedParametersOf_of_isVacant (by rw [hproperties, hgiven]; rfl)] at h
      cases h
      rw [hgiven]
      rfl
    · rw [namedParametersOf_eq hproperties hgiven] at h
      obtain ⟨_, _, hresult⟩ := Outcome.bind_eq_ok.mp h
      obtain rfl := Outcome.pure_eq_ok.mp hresult
      rw [if_neg (by rwa [List.isEmpty_iff])]
      rfl

/-- Parameters of the address are always given, with fields that are known. -/
theorem whitelists_address (a : Annotations) :
    ∃ written a', addressParameters (.obj schema) a = .ok (written, a')
      ∧ Whitelists (fun _ => AddressField a.enabled) properties written := by
  obtain ⟨a', hparameters, _⟩ := exists_mapM_addressParameter (objectProperties properties) a
  obtain ⟨written, a'', h⟩ : ∃ written a'', addressParameters (.obj schema) a
      = .ok (written, a'') := by
    rw [addressParameters_eq, schemaMembers_obj]
    show ∃ written a'', addressParametersOf schema a = .ok (written, a'')
    unfold addressParametersOf
    rw [hproperties]
    split
    · exact ⟨none, a, rfl⟩
    · exact ⟨_, a', Pass.bind_eq_ok.mpr ⟨properties, a, rfl,
        Pass.bind_eq_ok.mpr ⟨_, a', hparameters, rfl⟩⟩⟩
  refine ⟨written, a'', h, ?_⟩
  obtain ⟨parameters, hsame, hwritten⟩ := exists_of_addressParameters h hproperties
  cases hparameters.symm.trans hsame
  -- The fields are known, and the parameters are made of the properties that are objects.
  refine whitelists_accepted hnames (fun _ property =>
    annotatedFields a.enabled property (addressFields property))
    (fun _ _ _ _ _ => get?_annotatedFields_eq_some_iff) ?_ ?_ hwritten
  · intro name fields
    simp only [List.mem_map, Prod.mk.injEq]
    constructor
    · rintro ⟨⟨name, property⟩, hmem, rfl, rfl⟩
      exact ⟨property, mem_objectProperties_iff.mp hmem, rfl⟩
    · rintro ⟨property, hmem, rfl⟩
      exact ⟨_, mem_objectProperties_iff.mpr hmem, rfl, rfl⟩
  · obtain ⟨members, hmembers, hcases⟩ := addressParameters_cases h
    cases (schemaMembers_obj schema).symm.trans hmembers
    rw [hproperties] at hcases
    rcases hcases with ⟨hvacant, rfl, _⟩ | ⟨hgiven, others, made, hothers, _, rfl⟩
    · exact (if_pos hvacant).symm
    · exact (if_neg hgiven).symm

end

/-- Members that are all objects are given back by those. -/
theorem parameterMap_objectProperties {properties : Members}
    (hobjects : ∀ p ∈ properties, ∃ fields, p.2 = .obj fields) :
    Schema.parameterMap (objectProperties properties) = .obj properties := by
  rw [Schema.parameterMap, objectProperties, List.map_filterMap,
    List.filterMap_eq_map_iff_forall_eq_some (g := id) |>.mpr, List.map_id]
  rintro ⟨name, v⟩ hmem
  obtain ⟨fields, rfl⟩ := hobjects _ hmem
  rfl

/-- **Parameters are whitelisted, and no others are left out.** Of a schema whose properties are
objects:

* named parameters are given if what the schema requires is readable, and where they are given they
  are whitelisted, with fields from the properties with references turned into types;
* parameters of the address are always given and whitelisted, whatever annotations there are so far;
* accepting parameters that are accepted changes nothing. -/
theorem parameters_whitelisted {schema properties : Members}
    (hnames : (Entries.keys properties).Nodup)
    (hproperties : Members.find schema "properties" = .obj properties)
    (hobjects : ∀ p ∈ properties, ∃ fields, p.2 = .obj fields) :
    (RequiredIsReadable schema → ∃ written, namedParameters (.obj schema) = .ok written)
      ∧ (∀ written, namedParameters (.obj schema) = .ok written →
        Whitelists (fun name property => NamedField (listOrEmpty schema "required") name
          (typedObject property)) properties written)
      ∧ (∀ a, ∃ written a', addressParameters (.obj schema) a = .ok (written, a')
        ∧ Whitelists (fun _ => AddressField a.enabled) properties written)
      ∧ ∀ parameters : Members, (∀ p ∈ parameters, ∃ fields, p.2 = .obj fields) →
        ∃ kept, Schema.acceptParametersOf (.obj parameters) = .ok kept
          ∧ Schema.acceptParametersOf kept = .ok kept := by
  refine ⟨fun hrequired => ?_, fun written => whitelists_named hnames hproperties hobjects,
    whitelists_address hnames hproperties, fun parameters hfields => ?_⟩
  · rw [namedParameters_obj]
    exact exists_namedParametersOf hproperties hrequired
  · rw [← parameterMap_objectProperties hfields, Schema.acceptParametersOf_parameterMap]
    refine ⟨_, rfl, ?_⟩
    rw [Schema.acceptParametersOf_parameterMap, Schema.acceptParameters_idempotent]

/-- A number with a bound, and with a pattern, which only texts have. -/
def boundedNumber : Members :=
  [("type", .str "integer"), ("minimum", .int 1), ("pattern", .str "x"),
   ("description", .str "How many"), ("collectionFormat", .str "csv")]

/-- A reference to another schema. -/
def ownerReference : Members := [("ref", .str "Owner")]

def mixedProperties : Members := [("limit", .obj boundedNumber), ("owner", .obj ownerReference)]

def mixedSchema : Members :=
  [("properties", .obj mixedProperties), ("required", .list [.str "limit"])]

/-- The reference gives no named parameter, as its type is not accepted. As parameters of the
address, the number is shown under its description and has an annotation but no pattern. -/
theorem parameters_whitelisted_mixed :
    (Entries.keys mixedProperties).Nodup
      ∧ Members.find mixedSchema "properties" = .obj mixedProperties
      ∧ (∀ p ∈ mixedProperties, ∃ fields, p.2 = .obj fields)
      ∧ (∃ written, namedParameters (.obj mixedSchema) = .ok written
        ∧ "owner" ∉ Entries.keys (parametersIn written))
      ∧ ∃ written a' parameter, addressParameters (.obj mixedSchema) {} = .ok (written, a')
        ∧ ("limit", .obj parameter) ∈ parametersIn written
        ∧ Entries.get? parameter "displayName" = some (.str "How many")
        ∧ Entries.get? parameter (annotationName "collectionFormat") = some (.str "csv")
        ∧ "pattern" ∉ Entries.keys parameter := by
  have hnames : (Entries.keys mixedProperties).Nodup := by decide
  have hproperties : Members.find mixedSchema "properties" = .obj mixedProperties := rfl
  have hobjects : ∀ p ∈ mixedProperties, ∃ fields, p.2 = .obj fields := by
    simp [mixedProperties]
  obtain ⟨hgiven, hnamed, haddress, _⟩ := parameters_whitelisted hnames hproperties hobjects
  refine ⟨hnames, hproperties, hobjects, ?_, ?_⟩
  · obtain ⟨written, hwritten⟩ := hgiven List.mem_cons_self
    refine ⟨written, hwritten, ((hnamed written hwritten).complete "owner" _ rfl).mpr ?_⟩
    refine ⟨.str "Owner", .own (by decide) rfl ?_ ?_, by simp [Schema.parameterTypes]⟩
    · rintro ⟨⟩
    · exact fun hsame => absurd hsame (by decide)
  · obtain ⟨written, a', hwritten, hfields⟩ := haddress {}
    have hkept : "limit" ∈ Entries.keys (parametersIn written) := by
      by_contra hno
      obtain ⟨type, htype, hother⟩ := (hfields.complete "limit" boundedNumber rfl).mp hno
      -- The type is read off the fields as they are written.
      exact hother "integer" (by decide)
        (Option.some.inj (get?_annotatedFields_eq_some_iff.mpr htype)).symm
    obtain ⟨⟨_, v⟩, hv, rfl⟩ := List.mem_map.mp hkept
    obtain ⟨property, parameter, hproperty, rfl, hlisted, hreads⟩ := hfields.sound _ v hv
    cases hproperty
    have hcommon : ∀ field ∈ Schema.commonFieldNames,
        fieldFits (Members.find parameter "type") field = true := by
      intro field hfield
      simp [fieldFits, hfield]
    have htype : Entries.get? parameter "type" = some (.str "integer") :=
      (hreads _ _).mpr ⟨rfl, .own (by decide) rfl (by rintro ⟨⟩)
        (fun hsame => absurd hsame (by decide)) fun _ => rfl⟩
    refine ⟨written, a', parameter, hwritten, hv, ?_, ?_, fun hpattern => ?_⟩
    · exact (hreads _ _).mpr ⟨hcommon _ (by decide), .shown rfl⟩
    · exact (hreads _ _).mpr ⟨hcommon _ (by decide), .annotated rfl (by decide) rfl⟩
    · have htext := htype.symm.trans (hlisted.text "pattern" (by decide) hpattern)
      simp at htext

end Ramlify.Raml
