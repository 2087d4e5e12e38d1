import Ramlify.Proofs.Entries
import Ramlify.Proofs.Outcome
import Ramlify.Raml.Parameter
import Ramlify.Raml.Version

/-!
# Ramlify — the fields of parameters

A parameter takes over the fields of its schema that are not null, is marked if it is required, and
is put in order; at last it is accepted or not by its type, and loses the fields that do not go with
that. This module says by name what the fields of a parameter read as on the way.

* **`get?_carriedFields`**, **`get?_orderFirst`** — the fields that are taken over, in any order.
* **`get?_type_namedFields`**, **`get?_required_namedFields`** — the two fields that matter later.
* **`mem_acceptedMembers_iff`** — the parameters that are written.
-/

namespace Ramlify

/-- A value as a field of a parameter: not at all if it is null. -/
def Value.nonNull? : Value → Option Value
  | .null => none
  | v => some v

@[simp] theorem Value.getD_nonNull? (v : Value) : v.nonNull?.getD .null = v := by
  cases v <;> rfl

/-- A field that is there is the value itself. -/
theorem Value.nonNull?_eq_some_iff {v w : Value} (hw : w ≠ .null) :
    v.nonNull? = some w ↔ v = w := by
  cases v with
  | null => exact ⟨nofun, fun h => absurd h.symm hw⟩
  | bool | int | float | str | list | obj => exact Option.some_inj

end Ramlify

namespace Ramlify.Schema

/-! ## Picking fields by their names

The fields of a parameter are picked in a fixed order of names, whatever their order in the schema.
Told by name, picking is reading. -/

/-- Fields that are picked by their names read as what they were picked from. -/
theorem get?_filterMap_names (read : String → Option Value) (names : List String) (name : String) :
    Entries.get? (names.filterMap fun name => (read name).map fun v => (name, v)) name
      = if name ∈ names then read name else none := by
  induction names with
  | nil => rfl
  | cons first names ih =>
    rw [List.filterMap_cons]
    by_cases heq : first = name
    · subst heq
      rw [if_pos List.mem_cons_self]
      cases hfirst : read first with
      | none =>
        -- What is missing is left out, and it is not found later either.
        refine ih.trans ?_
        rw [hfirst, ite_self]
      | some v => simp [Entries.get?_cons]
    · have hiff : name ∈ first :: names ↔ name ∈ names := by simp [Ne.symm heq]
      rw [if_congr hiff rfl rfl, ← ih]
      cases read first with
      | none => rfl
      | some v => simp [Entries.get?_cons, heq]

/-- The fields that are carried over, as a choice of names. -/
theorem carriedFields_eq (schema : Members) :
    carriedFields schema = carriedFieldNames.filterMap fun name =>
      ((Members.find schema name).nonNull?).map fun v => (name, v) := by
  refine congrArg (List.filterMap · carriedFieldNames) (funext fun name => ?_)
  cases Members.find schema name <;> rfl

/-- A field that is taken over reads as in the schema, and null as a missing one. -/
theorem get?_carriedFields (schema : Members) {name : String} (hname : name ∈ carriedFieldNames) :
    Entries.get? (carriedFields schema) name = (Members.find schema name).nonNull? := by
  rw [carriedFields_eq]
  exact (get?_filterMap_names _ _ name).trans (if_pos hname)

/-- A field that is carried over reads as in the schema, null if it is missing. -/
theorem find_carriedFields (schema : Members) {name : String} (hname : name ∈ carriedFieldNames) :
    Members.find (carriedFields schema) name = Members.find schema name := by
  rw [Members.find, get?_carriedFields schema hname, Value.getD_nonNull?]

/-- Putting some fields first changes none of them. -/
theorem get?_orderFirst (names : List String) (members : Members) (name : String) :
    Entries.get? (orderFirst names members) name = Entries.get? members name := by
  have hfirst : Entries.get? (Entries.ofList (names.filterMap fun name =>
        (Entries.get? members name).map fun v => (name, v))) name
      = if name ∈ names then Entries.get? members name else none := by
    rw [Entries.get?_ofList, ← List.filterMap_reverse]
    refine (get?_filterMap_names _ _ name).trans ?_
    simp only [List.mem_reverse]
  unfold orderFirst
  dsimp only
  generalize Entries.ofList (names.filterMap fun name =>
    (Entries.get? members name).map fun v => (name, v)) = first at hfirst ⊢
  have hrest := Entries.get?_filter_keys members (fun name => !Entries.has first name) name
  rw [Entries.get?_append, hrest, Entries.has, hfirst]
  -- A name of the first ones is read there, and any other one behind them.
  by_cases hname : name ∈ names
  · rw [if_pos hname]
    cases Entries.get? members name <;> rfl
  · rw [if_neg hname]
    rfl

/-! ## Accepting parameters

A parameter is accepted or not as a whole, and then loses some fields. Whether it is accepted is a
matter of its type alone. -/

/-- Whether a parameter of a type is accepted. One without a type is. -/
def isAccepted (type : Option Value) : Bool := type.all fun type => parameterTypes.any type.isText

/-- A type that is a text is accepted if it is one that parameters may have. -/
theorem isAccepted_str_iff {type : String} :
    isAccepted (some (.str type)) = true ↔ type ∈ parameterTypes := by
  rw [isAccepted, Option.all_some, List.any_eq_true]
  constructor
  · rintro ⟨other, hother, htext⟩
    rw [show type = other from beq_iff_eq.mp htext]
    exact hother
  · exact fun htype => ⟨type, htype, beq_self_eq_true type⟩

/-- Accepting is a test and a choice of fields. -/
theorem acceptParameter?_eq (fields : Members) :
    acceptParameter? fields
      = if isAccepted (Entries.get? fields "type") = true then
          some (fields.filter fun field => fieldFits (Members.find fields "type") field.1)
        else none := by
  unfold acceptParameter?
  dsimp only
  rw [Members.find, Entries.has]
  cases Entries.get? fields "type" with
  | none => rfl
  | some type =>
    rw [isAccepted, Option.all_some, Option.isSome_some, Bool.true_and, Option.getD_some]
    cases parameterTypes.any type.isText <;> rfl

/-- A field that goes with every type is kept as it is. -/
theorem get?_of_acceptParameter? {fields kept : Members} (h : acceptParameter? fields = some kept)
    {name : String} (hname : name ∈ commonFieldNames) :
    Entries.get? kept name = Entries.get? fields name := by
  rw [acceptParameter?_eq] at h
  split at h
  · cases h
    refine (Entries.get?_filter_keys fields (fieldFits (Members.find fields "type")) name).trans ?_
    exact if_pos (by simp [fieldFits, hname])
  · cases h

end Ramlify.Schema

namespace Ramlify.Raml

/-! ## Parameters as members

Parameters are written under their names. Only properties that are objects become parameters. -/

/-- The properties that are objects, with their members. -/
theorem mem_objectProperties_iff {properties fields : Members} {name : String} :
    (name, fields) ∈ objectProperties properties ↔ (name, .obj fields) ∈ properties := by
  unfold objectProperties
  rw [List.mem_filterMap]
  constructor
  · rintro ⟨⟨other, v⟩, hmem, hpicked⟩
    cases v with
    | obj members =>
      cases hpicked
      exact hmem
    | null | bool | int | float | str | list => cases hpicked
  · intro hmem
    exact ⟨_, hmem, rfl⟩

/-- The members that the accepted ones of some parameters are. -/
def acceptedMembers (parameters : List (String × Members)) : Members :=
  (Schema.acceptParameters parameters).map fun parameter => (parameter.1, .obj parameter.2)

/-- Each member is an accepted parameter with the fields that it keeps. -/
theorem mem_acceptedMembers_iff {parameters : List (String × Members)} {name : String} {v : Value} :
    (name, v) ∈ acceptedMembers parameters
      ↔ ∃ fields kept, (name, fields) ∈ parameters
          ∧ Schema.acceptParameter? fields = some kept ∧ v = .obj kept := by
  unfold acceptedMembers Schema.acceptParameters
  simp only [List.mem_map, List.mem_filterMap, Option.map_eq_some_iff, Prod.mk.injEq]
  constructor
  · rintro ⟨_, ⟨parameter, hmem, kept, hkept, rfl⟩, rfl, rfl⟩
    exact ⟨parameter.2, kept, hmem, hkept, rfl⟩
  · rintro ⟨fields, kept, hmem, hkept, rfl⟩
    exact ⟨_, ⟨(name, fields), hmem, kept, hkept, rfl⟩, rfl, rfl⟩

/-- Which parameters are written is a matter of their types. -/
theorem mem_keys_acceptedMembers_iff {parameters : List (String × Members)} {name : String} :
    name ∈ Entries.keys (acceptedMembers parameters)
      ↔ ∃ fields, (name, fields) ∈ parameters
          ∧ Schema.isAccepted (Entries.get? fields "type") = true := by
  -- The test for the type is all there is to being accepted.
  have haccepted : ∀ fields, Schema.isAccepted (Entries.get? fields "type") = true
      ↔ ∃ kept, Schema.acceptParameter? fields = some kept := by
    intro fields
    rw [Schema.acceptParameter?_eq]
    constructor
    · exact fun h => ⟨_, if_pos h⟩
    · rintro ⟨kept, hkept⟩
      by_contra hno
      rw [if_neg hno] at hkept
      cases hkept
  rw [Entries.keys, List.mem_map]
  constructor
  · rintro ⟨⟨_, v⟩, hmem, rfl⟩
    obtain ⟨fields, kept, hfields, hkept, _⟩ := mem_acceptedMembers_iff.mp hmem
    exact ⟨fields, hfields, (haccepted fields).mpr ⟨kept, hkept⟩⟩
  · rintro ⟨fields, hfields, htype⟩
    obtain ⟨kept, hkept⟩ := (haccepted fields).mp htype
    exact ⟨_, mem_acceptedMembers_iff.mpr ⟨fields, kept, hfields, hkept, rfl⟩, rfl⟩

/-! ## One parameter

What a named parameter and a form parameter are made of, and the two fields by which they are told
apart later: their type, and whether they are required. -/

/-- The fields of a named parameter that is required or not. -/
def namedFields (isRequired : Bool) (fields : Members) : Members :=
  Schema.orderFirst ["type", "description"]
    (if isRequired then Entries.put (Schema.carriedFields fields) "required" (.bool true)
      else Schema.carriedFields fields)

/-- A named parameter is made of its property, if its name can be looked up. -/
theorem namedParameter_eq_ok {required : Value} {property parameter : String × Members} :
    namedParameter required property = .ok parameter
      ↔ ∃ isRequired, required.holds property.1 = .ok isRequired
          ∧ parameter = (property.1, namedFields isRequired property.2) := by
  unfold namedParameter
  dsimp only
  rw [Outcome.bind_eq_ok]
  constructor
  · rintro ⟨isRequired, hrequired, h⟩
    exact ⟨isRequired, hrequired, (Outcome.pure_eq_ok.mp h).symm⟩
  · rintro ⟨isRequired, hrequired, rfl⟩
    exact ⟨isRequired, hrequired, rfl⟩

/-- The type of a named parameter is that of its property. -/
theorem get?_type_namedFields (isRequired : Bool) (fields : Members) :
    Entries.get? (namedFields isRequired fields) "type"
      = (Members.find fields "type").nonNull? := by
  rw [namedFields, Schema.get?_orderFirst, ← Schema.get?_carriedFields fields (by decide)]
  cases isRequired with
  | true => exact Entries.get?_put_of_ne _ _ (by decide)
  | false => rfl

/-- A parameter is marked where it is required; otherwise the mark is what its property says itself.
-/
theorem get?_required_namedFields (isRequired : Bool) (fields : Members) :
    Entries.get? (namedFields isRequired fields) "required"
      = if isRequired then some (.bool true) else (Members.find fields "required").nonNull? := by
  rw [namedFields, Schema.get?_orderFirst, ← Schema.get?_carriedFields fields (by decide)]
  cases isRequired with
  | true => exact Entries.get?_put_self _ _ _
  | false => rfl

/-- The fields of a form parameter that is required or not. -/
def fieldsInForm (isRequired : Bool) (fields : Members) : Members :=
  let field := Version.fileType (Schema.carriedFields fields)
  if isRequired then Entries.put field "required" (.bool true) else field

/-- A form parameter asks its property to be an object, and its name to be looked up. -/
theorem formParameter_eq_ok {required v : Value} {name : String} {parameter : String × Members} :
    Version.formParameter required (name, v) = .ok parameter
      ↔ ∃ fields isRequired, v = .obj fields ∧ required.holds name = .ok isRequired
          ∧ parameter = (name, fieldsInForm isRequired fields) := by
  unfold Version.formParameter Schema.carriedFieldsOf
  constructor
  · intro h
    obtain ⟨carried, hcarried, h⟩ := Outcome.bind_eq_ok.mp h
    obtain ⟨fields, hfields, hpure⟩ := Outcome.bind_eq_ok.mp hcarried
    obtain rfl := Outcome.pure_eq_ok.mp hpure
    obtain ⟨isRequired, hrequired, h⟩ := Outcome.bind_eq_ok.mp h
    refine ⟨fields, isRequired, Value.members_eq_ok hfields, hrequired, ?_⟩
    -- Marking is a step of its own only where the parameter is required.
    cases isRequired with
    | true => exact (Outcome.pure_eq_ok.mp h).symm
    | false => exact (Outcome.pure_eq_ok.mp h).symm
  · rintro ⟨fields, isRequired, rfl, hrequired, rfl⟩
    refine Outcome.bind_eq_ok.mpr ⟨Schema.carriedFields fields, rfl, ?_⟩
    refine Outcome.bind_eq_ok.mpr ⟨isRequired, hrequired, ?_⟩
    cases isRequired <;> rfl

/-- The type of a form parameter is that of its property, unless it is binary. -/
theorem get?_type_fieldsInForm (isRequired : Bool) {fields : Members} {type : String}
    (htype : Members.find fields "type" = .str type) (hfile : type ≠ "binary") :
    Entries.get? (fieldsInForm isRequired fields) "type" = some (.str type) := by
  have hcarried : Members.find (Schema.carriedFields fields) "type" = .str type :=
    (Schema.find_carriedFields fields (by decide)).trans htype
  -- Only a binary type is made a file.
  have hkept : Version.fileType (Schema.carriedFields fields) = Schema.carriedFields fields := by
    unfold Version.fileType
    rw [hcarried]
    exact if_neg fun htext => hfile (beq_iff_eq.mp htext)
  have hget : Entries.get? (Schema.carriedFields fields) "type" = some (.str type) := by
    rw [Schema.get?_carriedFields fields (by decide), htype]
    rfl
  unfold fieldsInForm
  dsimp only
  rw [hkept]
  cases isRequired with
  | true => exact (Entries.get?_put_of_ne _ _ (by decide)).trans hget
  | false => exact hget

end Ramlify.Raml
