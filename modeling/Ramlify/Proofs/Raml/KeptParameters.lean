import Ramlify.Proofs.Raml.NamedParameters
import Ramlify.Proofs.Schema.NormalForm
import Ramlify.Proofs.Schema.RequiredNames

/-!
# Ramlify — parameters that are lost

Named parameters and the parameters of RAML 0.8 forms are read off a schema in which references have
become types. That changes the types of dates, and the map of properties is taken for a schema as
well; so a property of a type that parameters may have can come out as one that is not accepted, or
not at all.

* **`IsLost`** — the properties that this happens to.
* **`exists_accepted_iff`** — what rewriting leaves of the properties of a schema.
* **`mem_keys_formParametersIn_iff`** — the parameters of a form.
* **`supported_written_iff`** — which properties are written, and which are lost.
-/

namespace Ramlify.Schema

/-! ## Properties of types that parameters may have

What rewriting does to one property: a date becomes a type of its own, which parameters may not
have, and any other text keeps its type. -/

/-- The names of members that refer to other schemas. -/
def referenceNames : List String := ["$ref", "ref", "include"]

/-- A property declares a type that parameters may have, and refers to no other schema. -/
structure IsSupported (fields : Members) : Prop where
  type : ∃ type ∈ parameterTypes, Members.find fields "type" = .str type
  plain : ∀ name ∈ referenceNames, name ∉ Entries.keys fields

/-- A property is a text in the format of a date. -/
def IsDate (fields : Members) : Prop :=
  Members.find fields "type" = .str "string" ∧ Members.find fields "format" = .str "date"

/-- A property is lost: it is a date, or it stands where the map of properties, taken for a schema,
has its type or its format. -/
def IsLost (properties : Members) (name : String) (fields : Members) : Prop :=
  if isTextSchema properties then name = "format"
  else IsDate fields ∨ (name = "type" ∧ (lastReference? properties).isSome = true)

/-- A property without references has no last one. -/
theorem IsSupported.lastReference?_eq_none {fields : Members} (h : IsSupported fields) :
    lastReference? fields = none := by
  rw [lastReference?_eq_none_iff]
  intro p hp
  have hname : p.1 ∉ referenceNames := fun hname =>
    h.plain p.1 hname (List.mem_map.mpr ⟨p, hp, rfl⟩)
  simp only [referenceNames, List.mem_cons, List.not_mem_nil, or_false, not_or] at hname
  cases p.2 with
  | str s => simp [referenceOf?, hname]
  | null | bool | int | float | list | obj => rfl

/-- What parameters may have is not the type that stands for files in forms. -/
theorem ne_binary_of_mem : ∀ {type : String}, type ∈ parameterTypes → type ≠ "binary" := by
  decide

theorem exists_type_typedText {fields : Members} (htext : isTextSchema fields = true) :
    ∃ type, Members.find (typedText fields) "type" = .str type ∧ type ≠ "binary"
      ∧ (type ∈ parameterTypes ↔ Members.find fields "format" ≠ .str "date") := by
  rw [Members.find, get?_type_typedText, isTextSchema_iff.mp htext]
  cases hdate : dateType? (Members.find fields "format") with
  | none =>
    refine ⟨"string", rfl, by decide, iff_of_true (by decide) fun hformat => ?_⟩
    rw [hformat] at hdate
    cases hdate
  | some date =>
    rcases eq_of_dateType? hdate with ⟨hformat, rfl⟩ | ⟨hformat, rfl⟩
    · exact ⟨_, rfl, by decide, iff_of_false (by decide) fun hno => hno hformat⟩
    · refine ⟨_, rfl, by decide, iff_of_true (by decide) fun hno => ?_⟩
      exact absurd (hformat.symm.trans hno) (by simp)

/-- The type of a property after rewriting. It is one that parameters may have, unless the property
is a date. -/
theorem IsSupported.exists_type {fields : Members} (h : IsSupported fields)
    (hnames : (Entries.keys fields).Nodup) :
    ∃ type, Members.find (typedObject fields) "type" = .str type ∧ type ≠ "binary"
      ∧ (type ∈ parameterTypes ↔ ¬ IsDate fields) := by
  obtain ⟨type, htype, hfind⟩ := h.type
  have hget : Entries.get? fields "type" = some (.str type) := Members.get?_of_find hfind nofun
  unfold IsDate
  rw [typedObject]
  by_cases htext : isTextSchema fields = true
  · rw [if_pos htext]
    obtain ⟨now, hnow, hfile, hiff⟩ := exists_type_typedText htext
    cases hget.symm.trans (isTextSchema_iff.mp htext)
    exact ⟨now, hnow, hfile, hiff.trans (by simp [hfind])⟩
  · -- A property of the type of texts is a text.
    have hother : type ≠ "string" := by
      rintro rfl
      exact htext (isTextSchema_iff.mpr hget)
    rw [if_neg htext, Members.find, get?_type_typedMembers hnames, h.lastReference?_eq_none, hget]
    refine ⟨type, rfl, ne_binary_of_mem htype, iff_of_true htype fun hdate => hother ?_⟩
    exact Value.str.inj (hfind.symm.trans hdate.1)

/-! ## A map of properties

The map of properties is searched for references like a schema. So a property that is called `type`
can be overwritten by a reference found beside it, and in a map that passes for a text the property
called `format` is taken for a format. -/

section

variable {properties fields : Members} {name : String}
  (hnames : (Entries.keys properties).Nodup) (hmem : (name, .obj fields) ∈ properties)

include hnames hmem

/-- A property in a map that is searched for references. -/
theorem mem_typedObject_iff (htext : ¬ isTextSchema properties = true) {now : Members} :
    (name, .obj now) ∈ typedObject properties
      ↔ now = typedObject fields
        ∧ ¬ (name = "type" ∧ (lastReference? properties).isSome = true) := by
  have hget : Entries.get? properties name = some (.obj fields) := Entries.get?_of_mem hnames hmem
  have hread : Entries.get? (typedObject properties) name
      = if name = "type" ∧ (lastReference? properties).isSome = true then
          (lastReference? properties).map Value.str
        else some (.obj (typedObject fields)) := by
    rw [typedObject, if_neg htext]
    -- Only under `type` does the search put something of its own.
    by_cases htype : name = "type"
    · subst htype
      rw [get?_type_typedMembers hnames, hget, Option.map_some, typed_obj]
      cases lastReference? properties <;> rfl
    · rw [get?_typedMembers hnames htype, hget, Option.bind_some,
        typedMember?_of_isContainer name rfl, typed_obj, if_neg fun h => htype h.1]
  have hnodup : (Entries.keys (typedObject properties)).Nodup :=
    Rewritten.nodup (Or.inr rfl) hnames
  constructor
  · intro hnow
    rw [Entries.get?_of_mem hnodup hnow] at hread
    split at hread
    · next hgone =>
      obtain ⟨type, htype⟩ := Option.isSome_iff_exists.mp hgone.2
      rw [htype] at hread
      cases hread
    · next hkept => exact ⟨Value.obj.inj (Option.some.inj hread), hkept⟩
  · rintro ⟨rfl, hkept⟩
    rw [if_neg hkept] at hread
    exact Entries.mem_of_get? hread

/-- A property in a map that is taken for a text. -/
theorem exists_accepted_of_text (htext : isTextSchema properties = true) (h : IsSupported fields) :
    (∃ now, (name, .obj now) ∈ typedObject properties
        ∧ isAccepted (Members.find now "type").nonNull? = true)
      ↔ name ≠ "format" := by
  have hget : Entries.get? properties name = some (.obj fields) := Entries.get?_of_mem hnames hmem
  have hnodup : (Entries.keys (typedText properties)).Nodup := nodup_typedText hnames
  obtain ⟨type, htype, hfind⟩ := h.type
  have hself : isAccepted (Members.find fields "type").nonNull? = true := by
    rw [hfind]
    exact isAccepted_str_iff.mpr htype
  rw [typedObject, if_pos htext]
  constructor
  · rintro ⟨now, hnow, _⟩ rfl
    -- What is left as the format of a text is a text.
    have hkept := isKeptFormat_adaptFormat hnames
    rw [← get?_typedText_of_ne properties (by decide), Entries.get?_of_mem hnodup hnow] at hkept
    cases hkept
  · intro hformat
    have htype : name ≠ "type" := by
      rintro rfl
      cases hget.symm.trans (isTextSchema_iff.mp htext)
    by_cases hfacets : name = "facets"
    · subst hfacets
      have hread := get?_facets_typedText properties
      split at hread
      · exact ⟨fields, Entries.mem_of_get? (hread.trans hget), hself⟩
      · exact ⟨_, Entries.mem_of_get? hread, rfl⟩
    · have hread : Entries.get? (typedText properties) name = Entries.get? properties name :=
        get?_typedText properties (by simp [htype, hformat, hfacets])
      exact ⟨fields, Entries.mem_of_get? (hread.trans hget), hself⟩

/-- **What rewriting leaves**: each property of a type that parameters may have is still an object
of such a type, unless it is lost. -/
theorem exists_accepted_iff (hfields : (Entries.keys fields).Nodup) (h : IsSupported fields) :
    (∃ now, (name, .obj now) ∈ typedObject properties
        ∧ isAccepted (Members.find now "type").nonNull? = true)
      ↔ ¬ IsLost properties name fields := by
  unfold IsLost
  by_cases htext : isTextSchema properties = true
  · rw [if_pos htext]
    exact exists_accepted_of_text hnames hmem htext h
  · rw [if_neg htext]
    obtain ⟨type, htype, _, hiff⟩ := h.exists_type hfields
    -- Outside of texts the property is rewritten where it stands, and whether its type is accepted
    -- depends on its being a date.
    have haccepted : isAccepted (Members.find (typedObject fields) "type").nonNull? = true
        ↔ ¬ IsDate fields := by
      rw [htype]
      exact isAccepted_str_iff.trans hiff
    rw [not_or, ← haccepted]
    constructor
    · rintro ⟨now, hnow, hnowType⟩
      obtain ⟨rfl, hkept⟩ := (mem_typedObject_iff hnames hmem htext).mp hnow
      exact ⟨hnowType, hkept⟩
    · rintro ⟨hnowType, hkept⟩
      exact ⟨_, (mem_typedObject_iff hnames hmem htext).mpr ⟨rfl, hkept⟩, hnowType⟩

end

/-! ## A schema with properties

What rewriting leaves of the two members of a schema that parameters are made from. -/

section

variable {schema : Members} (hnames : (Entries.keys schema).Nodup)

include hnames

/-- The properties of a schema after rewriting. Those of a text are not searched. -/
theorem find_properties_typedObject {properties : Members}
    (hproperties : Members.find schema "properties" = .obj properties) :
    Members.find (typedObject schema) "properties"
      = .obj (if isTextSchema schema then properties else typedObject properties) := by
  have hget := Members.get?_of_find hproperties nofun
  rw [typedObject, Members.find]
  split
  · rw [get?_typedText schema (by decide), hget]
    rfl
  · rw [get?_typedMembers hnames (by decide), hget, Option.bind_some,
      typedMember?_of_isContainer _ rfl, typed_obj]
    rfl

/-- What a schema says is required, after rewriting. -/
theorem find_required_typedObject :
    Members.find (typedObject schema) "required"
      = if isTextSchema schema then Members.find schema "required"
        else typed (Members.find schema "required") := by
  rw [typedObject, Members.find, Members.find]
  split
  · rw [get?_typedText schema (by decide)]
  · rw [get?_typedMembers hnames (by decide)]
    cases Entries.get? schema "required" with
    | none => rfl
    | some v => cases v <;> rfl

end

end Ramlify.Schema

namespace Ramlify.Raml

open Json (NamesOnce)
open Schema (IsSupported IsDate IsLost isTextSchema typedObject)

/-! ## The parameters of a form

A form of RAML 0.8 asks all properties to be objects, and rewriting must have left them so. -/

/-- The parameters that the body of a form has. -/
def formParametersIn : Value → Members
  | .obj body => parametersIn (Entries.get? body "formParameters")
  | _ => []

/-- What a schema says is required is readable after rewriting, if it was before. -/
theorem requiredIsReadable_typedObject {schema : Members} (hnames : (Entries.keys schema).Nodup)
    (h : RequiredIsReadable schema) : RequiredIsReadable (typedObject schema) := by
  rw [RequiredIsReadable, listOrEmpty] at h ⊢
  rw [Schema.find_required_typedObject hnames]
  by_cases htext : isTextSchema schema = true
  · rw [if_pos htext]
    exact h
  · rw [if_neg htext]
    -- Rewriting keeps the kind of what is required, which is all that is asked of it.
    generalize Members.find schema "required" = v at h
    cases v with
    | null | bool | int | float | str => exact h
    | list items =>
      rw [Schema.typed]
      split <;> simp [Value.kind]
    | obj members =>
      rw [Schema.typed_obj]
      split <;> simp [Value.kind]

section

variable {now properties : Members} (hproperties : Members.find now "properties" = .obj properties)

include hproperties

/-- A form is made from its properties, one parameter for each. -/
theorem form_eq : Version.form .v08 (.obj now)
    = (do
        let parameters ← properties.mapM (Version.formParameter (listOrEmpty now "required"))
        return .obj [("formParameters", .obj (acceptedMembers parameters))]) := by
  have hread : Version.propertiesOf now = .ok properties := by
    unfold Version.propertiesOf
    dsimp only
    rw [hproperties]
    split
    · next hvacant => rw [List.isEmpty_iff.mp hvacant]
    · rfl
  show (Version.propertiesOf now >>= _) = _
  rw [hread]
  rfl

/-- **A form is mapped** if its properties are objects and what it requires is readable. -/
theorem exists_form (hobjects : ∀ p ∈ properties, ∃ fields, p.2 = .obj fields)
    (hrequired : RequiredIsReadable now) : ∃ body, Version.form .v08 (.obj now) = .ok body := by
  have hsteps : ∀ property ∈ properties, ∃ parameter,
      Version.formParameter (listOrEmpty now "required") property = .ok parameter := by
    rintro ⟨name, v⟩ hproperty
    obtain ⟨fields, rfl⟩ := hobjects _ hproperty
    obtain ⟨isRequired, hheld⟩ := (Value.exists_holds_iff name).mpr hrequired
    exact ⟨_, formParameter_eq_ok.mpr ⟨fields, isRequired, rfl, hheld, rfl⟩⟩
  obtain ⟨parameters, hparameters⟩ := Outcome.exists_mapM hsteps
  rw [form_eq hproperties, hparameters]
  exact ⟨_, rfl⟩

/-- In a form that was mapped all properties are objects, and those are parameters whose types are
accepted. -/
theorem mem_keys_of_form {body : Value} (h : Version.form .v08 (.obj now) = .ok body) :
    (∀ p ∈ properties, ∃ fields isRequired, p.2 = .obj fields
        ∧ (listOrEmpty now "required").holds p.1 = .ok isRequired)
      ∧ ∀ name, name ∈ Entries.keys (formParametersIn body)
          ↔ ∃ fields isRequired, (name, .obj fields) ∈ properties
            ∧ (listOrEmpty now "required").holds name = .ok isRequired
            ∧ Schema.isAccepted (Entries.get? (fieldsInForm isRequired fields) "type") = true := by
  rw [form_eq hproperties] at h
  obtain ⟨parameters, hparameters, hpure⟩ := Outcome.bind_eq_ok.mp h
  obtain rfl := Outcome.pure_eq_ok.mp hpure
  refine ⟨fun p hp => ?_, fun name => ?_⟩
  · obtain ⟨parameter, hparameter⟩ := Outcome.exists_of_mapM hparameters hp
    obtain ⟨fields, isRequired, hfields, hheld, _⟩ := formParameter_eq_ok.mp hparameter
    exact ⟨fields, isRequired, hfields, hheld⟩
  · -- A name that is written is that of a parameter of an accepted type, and this came of the
    -- property of the name.
    show name ∈ Entries.keys (acceptedMembers parameters) ↔ _
    rw [mem_keys_acceptedMembers_iff]
    constructor
    · rintro ⟨_, hmem, htype⟩
      obtain ⟨⟨_, v⟩, hproperty, hstep⟩ := (Outcome.mem_mapM_iff hparameters).mp hmem
      obtain ⟨fields, isRequired, rfl, hheld, hresult⟩ := formParameter_eq_ok.mp hstep
      cases hresult
      exact ⟨fields, isRequired, hproperty, hheld, htype⟩
    · rintro ⟨fields, isRequired, hproperty, hheld, htype⟩
      have hstep := formParameter_eq_ok.mpr ⟨fields, isRequired, rfl, hheld, rfl⟩
      exact ⟨_, (Outcome.mem_mapM_iff hparameters).mpr ⟨_, hproperty, hstep⟩, htype⟩

end

/-- A map in which rewriting left objects only was no text and had no references. -/
theorem eq_none_of_objects {properties : Members} (hnames : (Entries.keys properties).Nodup)
    (hobjects : ∀ p ∈ typedObject properties, ∃ fields, p.2 = .obj fields) :
    ¬ isTextSchema properties = true ∧ Schema.lastReference? properties = none := by
  -- A text or a reference would have put a text under `type`.
  have hno : ∀ s, Entries.get? (typedObject properties) "type" ≠ some (.str s) := by
    intro s hget
    obtain ⟨fields, hfields⟩ := hobjects _ (Entries.mem_of_get? hget)
    cases hfields
  rw [typedObject] at hno
  by_cases htext : isTextSchema properties = true
  · rw [if_pos htext, Schema.get?_type_typedText, Schema.isTextSchema_iff.mp htext] at hno
    cases hdate : Schema.dateType? (Members.find properties "format") with
    | none => exact absurd (by rw [hdate]; rfl) (hno "string")
    | some date => exact absurd (by rw [hdate]; rfl) (hno date)
  · refine ⟨htext, ?_⟩
    rw [if_neg htext, Schema.get?_type_typedMembers hnames] at hno
    cases hreference : Schema.lastReference? properties with
    | none => rfl
    | some type => exact absurd (by rw [hreference]; rfl) (hno type)

/-- The parameters of a form that was mapped: no supported property is lost but dates, and not even
these where the schema of the form is a text. -/
theorem mem_keys_formParametersIn_iff {schema properties fields : Members}
    (honce : NamesOnce (.obj schema))
    (hproperties : Members.find schema "properties" = .obj properties) {body : Value}
    (h : Version.form .v08 (Schema.typed (.obj schema)) = .ok body) {name : String}
    (hmem : (name, .obj fields) ∈ properties) (hsupported : IsSupported fields) :
    name ∈ Entries.keys (formParametersIn body) ↔ isTextSchema schema = true ∨ ¬ IsDate fields := by
  have hnames : (Entries.keys properties).Nodup :=
    (honce.of_get? (Members.get?_of_find hproperties nofun)).1
  have hfields : (Entries.keys fields).Nodup :=
    ((honce.of_get? (Members.get?_of_find hproperties nofun)).of_get?
      (Entries.get?_of_mem hnames hmem)).1
  rw [Schema.typed_obj] at h
  obtain ⟨hall, hkeys⟩ :=
    mem_keys_of_form (Schema.find_properties_typedObject honce.1 hproperties) h
  -- The type of a property alone decides, whether it is required or not.
  have hdecide : ∀ now type, Members.find now "type" = .str type → type ≠ "binary" →
      ∀ isRequired, Schema.isAccepted (Entries.get? (fieldsInForm isRequired now) "type") = true
        ↔ type ∈ Schema.parameterTypes := by
    intro now type htype hfile isRequired
    rw [get?_type_fieldsInForm isRequired htype hfile]
    exact Schema.isAccepted_str_iff
  rw [hkeys]
  by_cases htext : isTextSchema schema = true
  · obtain ⟨type, htype, hfind⟩ := hsupported.type
    have hfile : type ≠ "binary" := Schema.ne_binary_of_mem htype
    rw [if_pos htext] at hall ⊢
    obtain ⟨_, isRequired, _, hheld⟩ := hall _ hmem
    refine iff_of_true ?_ (Or.inl htext)
    exact ⟨fields, isRequired, hmem, hheld, (hdecide fields type hfind hfile isRequired).mpr htype⟩
  · obtain ⟨type, htype, hfile, hiff⟩ := hsupported.exists_type hfields
    rw [if_neg htext] at hall ⊢
    obtain ⟨hmap, hreference⟩ := eq_none_of_objects hnames fun p hp => by
      obtain ⟨now, _, hnow, _⟩ := hall p hp
      exact ⟨now, hnow⟩
    have hnow : ∀ {now : Members}, (name, .obj now) ∈ typedObject properties
        ↔ now = typedObject fields
          ∧ ¬ (name = "type" ∧ (Schema.lastReference? properties).isSome = true) :=
      Schema.mem_typedObject_iff hnames hmem hmap
    rw [or_iff_right htext, ← hiff]
    constructor
    · rintro ⟨now, isRequired, hproperty, _, haccepted⟩
      obtain ⟨rfl, _⟩ := hnow.mp hproperty
      exact (hdecide _ type htype hfile isRequired).mp haccepted
    · intro haccepted
      have hkept := hnow.mpr ⟨rfl, fun hgone => by rw [hreference] at hgone; cases hgone.2⟩
      obtain ⟨_, isRequired, _, hheld⟩ := hall _ hkept
      exact ⟨_, isRequired, hkept, hheld, (hdecide _ type htype hfile isRequired).mpr haccepted⟩

/-! ## What is written and what is lost

Both kinds of parameters in one statement, and the properties for which it makes a difference. -/

/-- **Supported properties are written, but for those that rewriting loses.** Of a schema with
properties:

* wherever the parameters of a schema are written by their names, a property of a type that
  parameters may have is written unless it is lost (`IsLost`): dates are, and so are properties that
  are called `type` or `format` where the map of properties passes for a schema;
* in a form of RAML 0.8 such a property is written unless it is a date.

Parameters are given, and forms are mapped, if what the schema requires is readable, and for forms
if all properties are objects. -/
theorem supported_written_iff {schema properties : Members} (honce : NamesOnce (.obj schema))
    (hproperties : Members.find schema "properties" = .obj properties) :
    (RequiredIsReadable schema → ∃ v, namedParametersOf schema = .ok v)
      ∧ (∀ written, WritesNamed schema written → ∀ name fields,
          (name, .obj fields) ∈ properties → IsSupported fields →
          (name ∈ Entries.keys (parametersIn written) ↔ ¬ IsLost properties name fields))
      ∧ (RequiredIsReadable schema → (∀ p ∈ properties, ∃ fields, p.2 = .obj fields) →
          ∃ body, Version.form .v08 (Schema.typed (.obj schema)) = .ok body)
      ∧ ∀ body, Version.form .v08 (Schema.typed (.obj schema)) = .ok body → ∀ name fields,
          (name, .obj fields) ∈ properties → IsSupported fields →
          (name ∈ Entries.keys (formParametersIn body)
            ↔ isTextSchema schema = true ∨ ¬ IsDate fields) := by
  have honceProperties := honce.of_get? (Members.get?_of_find hproperties nofun)
  have hnames : (Entries.keys properties).Nodup := honceProperties.1
  refine ⟨exists_namedParametersOf hproperties, ?_, ?_, ?_⟩
  · intro written hwritten name fields hmem hsupported
    have hfields := (honceProperties.of_get? (Entries.get?_of_mem hnames hmem)).1
    rw [hwritten.mem_keys_iff hproperties]
    exact Schema.exists_accepted_iff hnames hmem hfields hsupported
  · intro hrequired hobjects
    rw [Schema.typed_obj]
    refine exists_form (Schema.find_properties_typedObject honce.1 hproperties) ?_
      (requiredIsReadable_typedObject honce.1 hrequired)
    split
    · exact hobjects
    · -- Each property is rewritten to an object again.
      rw [Schema.typedObject_properties hnames hobjects]
      intro p hp
      obtain ⟨⟨name, v⟩, hproperty, rfl⟩ := List.mem_map.mp hp
      obtain ⟨fields, rfl⟩ := hobjects _ hproperty
      exact ⟨typedObject fields, Schema.typed_obj fields⟩
  · intro body h name fields hmem hsupported
    exact mem_keys_formParametersIn_iff honce hproperties h hmem hsupported

def sinceDate : Members := [("type", .str "string"), ("format", .str "date")]

def untilTime : Members := [("type", .str "string"), ("format", .str "date-time")]

/-- A date and a time, from when and until when something is. -/
def periodProperties : Members := [("Since", .obj sinceDate), ("Until", .obj untilTime)]

def periodSchema : Members := [("properties", .obj periodProperties)]

/-- Both properties have types that parameters may have. -/
theorem isSupported_period : IsSupported sinceDate ∧ IsSupported untilTime := by
  constructor
  all_goals exact ⟨⟨"string", by decide, rfl⟩, by decide⟩

/-- Of a date and a time the time is written. -/
theorem supported_written_iff_period :
    NamesOnce (.obj periodSchema) ∧ Members.find periodSchema "properties" = .obj periodProperties
      ∧ (∃ v, namedParametersOf periodSchema = .ok v)
      ∧ (∃ fields, responseFields .v10 "" { headers := periodSchema } = .ok fields
        ∧ "Until" ∈ Entries.keys (parametersIn (Entries.get? fields "headers")))
      ∧ ∃ body, Version.form .v08 (Schema.typed (.obj periodSchema)) = .ok body
        ∧ "Until" ∈ Entries.keys (formParametersIn body) := by
  have honce : NamesOnce (.obj periodSchema) := by
    simp [periodSchema, periodProperties, sinceDate, untilTime, NamesOnce, Json.NamesOnceMembers,
      Entries.keys]
  have hproperties : Members.find periodSchema "properties" = .obj periodProperties := rfl
  obtain ⟨hgiven, hnamed, hmapped, hform⟩ := supported_written_iff honce hproperties
  have hreadable : RequiredIsReadable periodSchema := List.mem_cons_self
  have hobjects : ∀ p ∈ periodProperties, ∃ fields, p.2 = .obj fields := by
    simp [periodProperties]
  have huntil : ("Until", .obj untilTime) ∈ periodProperties := by simp [periodProperties]
  have htime : ¬ IsDate untilTime := by
    rintro ⟨_, hformat⟩
    simp [untilTime, Members.find, Entries.get?] at hformat
  -- The time is no date, and the map of the two properties does not pass for a text.
  have hkept : ¬ IsLost periodProperties "Until" untilTime := by
    simp [IsLost, htime, isTextSchema, periodProperties, Members.find, Entries.get?, Value.isText]
  have hfields : ∃ fields, responseFields .v10 "" { headers := periodSchema } = .ok fields :=
    Outcome.exists_of_isSome (by decide +kernel)
  obtain ⟨fields, hfields⟩ := hfields
  obtain ⟨body, hbody⟩ := hmapped hreadable hobjects
  refine ⟨honce, hproperties, hgiven hreadable, ⟨fields, hfields, ?_⟩, ⟨body, hbody, ?_⟩⟩
  · exact (hnamed _ (.responseHeaders hfields) "Until" untilTime huntil isSupported_period.2).mpr
      hkept
  · exact (hform body hbody "Until" untilTime huntil isSupported_period.2).mpr (Or.inr htime)

/-- **A date is lost**: its type is one that parameters may have, but neither the headers of a
response nor the parameters of a form have it. -/
theorem dates_lost :
    ("Since", .obj sinceDate) ∈ periodProperties ∧ IsSupported sinceDate
      ∧ (∃ fields, responseFields .v10 "" { headers := periodSchema } = .ok fields
        ∧ WritesNamed periodSchema (Entries.get? fields "headers")
        ∧ "Since" ∉ Entries.keys (parametersIn (Entries.get? fields "headers")))
      ∧ ∃ body, Version.form .v08 (Schema.typed (.obj periodSchema)) = .ok body
        ∧ "Since" ∉ Entries.keys (formParametersIn body) := by
  have hfields : responseFields .v10 "" { headers := periodSchema }
      = .ok [("headers", .obj [("Until", .obj [("type", .str "datetime")])])] := rfl
  have hbody : Version.form .v08 (Schema.typed (.obj periodSchema))
      = .ok (.obj [("formParameters", .obj [("Until", .obj [("type", .str "datetime")])])]) := rfl
  refine ⟨List.mem_cons_self, isSupported_period.1, ⟨_, hfields, .responseHeaders hfields, ?_⟩,
    ⟨_, hbody, ?_⟩⟩
  · decide
  · decide

end Ramlify.Raml
