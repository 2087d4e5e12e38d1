import Ramlify.Proofs.Raml.MethodParts
import Ramlify.Proofs.Raml.ParameterFields
import Ramlify.Proofs.Schema.Typing

/-!
# Ramlify — where named parameters are written

Headers, and the query of a trait, are written by the names of their properties. They all go through
`namedParametersOf`, which turns references into types first; so what stands in a definition is said
once here, for every place.

* **`exists_namedParametersOf`** — when a schema gives parameters at all.
* **`WritesNamed`** — the places.
* **`WritesNamed.exists_property`**, **`WritesNamed.mem_keys_iff`** — what is written there.
-/

namespace Ramlify.Raml

open Schema (typedObject)

/-! ## One schema

Parameters are made of the properties of a schema, after references have become types. They fail
only where the names of the properties cannot be looked up in what the schema requires. -/

/-- The parameters that a member of a definition holds. -/
def parametersIn : Option Value → Members
  | some (.obj parameters) => parameters
  | _ => []

/-- Leaving out what has nothing in it changes no parameters. -/
@[simp] theorem parametersIn_getD (v : Option Value) :
    parametersIn (v.getD .null).given? = parametersIn v := by
  cases v with
  | none => rfl
  | some v =>
    rw [Option.getD_some, Value.given?]
    split
    · next hvacant =>
      cases v with
      | obj parameters =>
        rw [List.isEmpty_iff.mp hvacant]
        rfl
      | null | bool | int | float | str | list => rfl
    · rfl

/-- Names can be looked up in what a schema says is required. -/
def RequiredIsReadable (schema : Members) : Prop :=
  (listOrEmpty schema "required").kind ∈ [.list, .obj, .str]

variable {schema : Members}

/-- A schema without properties gives none. -/
theorem namedParametersOf_of_isVacant (h : (Members.find schema "properties").isVacant = true) :
    namedParametersOf schema = .ok none := by
  unfold namedParametersOf
  exact if_pos h

theorem namedParametersOf_eq {properties : Members}
    (hproperties : Members.find schema "properties" = .obj properties) (hgiven : properties ≠ []) :
    namedParametersOf schema
      = (do
          let parameters ← (objectProperties (typedObject properties)).mapM
            (namedParameter (listOrEmpty schema "required"))
          return some (.obj (acceptedMembers parameters))) := by
  have hnot : ¬ (Members.find schema "properties").isVacant = true := by
    rw [hproperties, Value.isVacant, List.isEmpty_iff]
    exact hgiven
  unfold namedParametersOf
  dsimp only
  rw [if_neg hnot, hproperties, Schema.typed_obj]
  rfl

/-- **Parameters are given** by every schema in whose list of what is required names can be looked
up. -/
theorem exists_namedParametersOf {properties : Members}
    (hproperties : Members.find schema "properties" = .obj properties)
    (hrequired : RequiredIsReadable schema) : ∃ v, namedParametersOf schema = .ok v := by
  by_cases hgiven : properties = []
  · subst hgiven
    exact ⟨none, namedParametersOf_of_isVacant (by rw [hproperties]; rfl)⟩
  · rw [namedParametersOf_eq hproperties hgiven]
    have hsteps : ∀ property ∈ objectProperties (typedObject properties),
        ∃ parameter, namedParameter (listOrEmpty schema "required") property = .ok parameter := by
      intro property _
      obtain ⟨isRequired, hheld⟩ := (Value.exists_holds_iff property.1).mpr hrequired
      exact ⟨_, namedParameter_eq_ok.mpr ⟨isRequired, hheld, rfl⟩⟩
    obtain ⟨parameters, hparameters⟩ := Outcome.exists_mapM hsteps
    rw [hparameters]
    exact ⟨_, rfl⟩

/-- What a schema gives, property by property. -/
theorem exists_of_namedParametersOf {properties : Members} {v : Option Value}
    (h : namedParametersOf schema = .ok v)
    (hproperties : Members.find schema "properties" = .obj properties) :
    ∃ parameters, (objectProperties (typedObject properties)).mapM
          (namedParameter (listOrEmpty schema "required")) = .ok parameters
      ∧ parametersIn v = acceptedMembers parameters := by
  by_cases hgiven : properties = []
  · subst hgiven
    have hnone : namedParametersOf schema = .ok none :=
      namedParametersOf_of_isVacant (by rw [hproperties]; rfl)
    cases hnone.symm.trans h
    exact ⟨[], rfl, rfl⟩
  · rw [namedParametersOf_eq hproperties hgiven] at h
    obtain ⟨parameters, hparameters, hresult⟩ := Outcome.bind_eq_ok.mp h
    obtain rfl := Outcome.pure_eq_ok.mp hresult
    exact ⟨parameters, hparameters, rfl⟩

/-! ## The places

Four places of a definition have parameters that are made in this way. Each of them reads a schema
that is stored somewhere else. -/

/-- The parameters of a schema are written into a definition by their names. -/
inductive WritesNamed : Members → Option Value → Prop where
  | headers {version : Version} {project : Project} {mediaType : Value} {e : Endpoint}
      {a a' : Annotations} {schema method : Members}
      (hread : e.request.read .headers = .ok (.obj schema))
      (hmethod : methodOf version project mediaType e a = .ok (method, a')) :
      WritesNamed schema (Entries.get? method "headers")
  | responseHeaders {version : Version} {mediaType : String} {response : Response}
      {fields : Members} (hfields : responseFields version mediaType response = .ok fields) :
      WritesNamed response.headers (Entries.get? fields "headers")
  | traitHeaders {version : Version} {mediaType : String} {trait : Trait} {fields : Members}
      (hfields : traitFields version mediaType trait = .ok fields) :
      WritesNamed trait.headers (Entries.get? fields "headers")
  | traitQuery {version : Version} {mediaType : String} {trait : Trait} {fields : Members}
      (hfields : traitFields version mediaType trait = .ok fields) :
      WritesNamed trait.query (Entries.get? fields "queryParameters")

/-- A schema that describes nothing gives no parameters. -/
theorem namedParametersOf_of_isEmptyObject (h : Schema.isEmptyObject schema = true) :
    namedParametersOf schema = .ok none := by
  unfold Schema.isEmptyObject at h
  rw [Bool.and_eq_true, Bool.and_eq_true] at h
  exact namedParametersOf_of_isVacant h.1.1

/-- The headers of a response are made in the same way. -/
theorem describedParameters_eq (schema : Members) :
    describedParameters schema = namedParametersOf schema := by
  unfold describedParameters
  split
  · next hempty => exact (namedParametersOf_of_isEmptyObject hempty).symm
  · rfl

/-- A schema that is an object gives what its members give. -/
theorem namedParameters_obj (schema : Members) :
    namedParameters (.obj schema) = namedParametersOf schema := by
  unfold namedParameters
  split
  · next hvacant =>
    rw [List.isEmpty_iff.mp hvacant]
    rfl
  · rfl

theorem traitParameters_eq_ok {name : String} {declared : Members}
    (h : traitParameters name schema = .ok declared) :
    (∃ v, namedParametersOf schema = .ok v
        ∧ parametersIn (Entries.get? declared name) = parametersIn v)
      ∧ ∀ other, other ≠ name → Entries.get? declared other = none := by
  unfold traitParameters at h
  split at h
  · next hempty =>
    cases h
    exact ⟨⟨none, namedParametersOf_of_isEmptyObject hempty, rfl⟩, fun _ _ => rfl⟩
  · obtain ⟨v, hv, hpure⟩ := Outcome.bind_eq_ok.mp h
    obtain rfl := Outcome.pure_eq_ok.mp hpure
    refine ⟨⟨v, hv, ?_⟩, fun other hother => ?_⟩
    · rw [Entries.get?_cons, if_pos rfl]
      cases v <;> rfl
    · rw [Entries.get?_cons, if_neg (Ne.symm hother)]
      rfl

/-- The query and the headers of a trait stand under names of their own. -/
theorem traitFields_eq_ok {version : Version} {mediaType : String} {trait : Trait}
    {fields : Members} (h : traitFields version mediaType trait = .ok fields) :
    ∃ query headers, traitParameters "queryParameters" trait.query = .ok query
      ∧ traitParameters "headers" trait.headers = .ok headers
      ∧ ∀ name, "responses" ≠ name →
          Entries.get? fields name = (Entries.get? query name).or (Entries.get? headers name) := by
  unfold traitFields at h
  obtain ⟨query, hquery, hrest⟩ := Outcome.bind_eq_ok.mp h
  obtain ⟨headers, hheaders, hrest⟩ := Outcome.bind_eq_ok.mp hrest
  obtain ⟨responses, _, hpure⟩ := Outcome.bind_eq_ok.mp hrest
  obtain rfl := Outcome.pure_eq_ok.mp hpure
  refine ⟨query, headers, hquery, hheaders, fun name hname => ?_⟩
  rw [Members.get?_putGiven_of_ne _ _ hname, Entries.get?_append]

/-- At every place stands what the schema gives. -/
theorem WritesNamed.exists_eq {written : Option Value} (h : WritesNamed schema written) :
    ∃ v, namedParametersOf schema = .ok v ∧ parametersIn written = parametersIn v := by
  cases h with
  | headers hread hmethod =>
    obtain ⟨read, v, hread', hv, hget⟩ := (methodParts hmethod).headers
    cases hread.symm.trans hread'
    rw [namedParameters_obj] at hv
    exact ⟨v, hv, by rw [hget, parametersIn_getD]⟩
  | responseHeaders hfields =>
    unfold responseFields at hfields
    obtain ⟨body, _, hrest⟩ := Outcome.bind_eq_ok.mp hfields
    obtain ⟨v, hv, hpure⟩ := Outcome.bind_eq_ok.mp hrest
    obtain rfl := Outcome.pure_eq_ok.mp hpure
    rw [describedParameters_eq] at hv
    refine ⟨v, hv, ?_⟩
    -- Nothing stands under the name before the headers are put.
    rw [Members.get?_putGiven_of_new, parametersIn_getD]
    rw [Members.get?_putGiven_of_ne _ _ (by decide), Members.get?_putGiven_of_ne _ _ (by decide)]
    rfl
  | traitHeaders hfields =>
    obtain ⟨query, headers, hquery, hheaders, hget⟩ := traitFields_eq_ok hfields
    rw [hget _ (by decide), (traitParameters_eq_ok hquery).2 _ (by decide), Option.none_or]
    exact (traitParameters_eq_ok hheaders).1
  | traitQuery hfields =>
    obtain ⟨query, headers, hquery, hheaders, hget⟩ := traitFields_eq_ok hfields
    rw [hget _ (by decide), (traitParameters_eq_ok hheaders).2 _ (by decide), Option.or_none]
    exact (traitParameters_eq_ok hquery).1

/-- The properties of a schema, references turned into types, become the parameters. -/
theorem WritesNamed.exists_parameters {written : Option Value} (h : WritesNamed schema written)
    {properties : Members} (hproperties : Members.find schema "properties" = .obj properties) :
    ∃ parameters, (objectProperties (typedObject properties)).mapM
          (namedParameter (listOrEmpty schema "required")) = .ok parameters
      ∧ parametersIn written = acceptedMembers parameters := by
  obtain ⟨v, hv, hsame⟩ := h.exists_eq
  rw [hsame]
  exact exists_of_namedParametersOf hv hproperties

/-- A parameter that is written comes from a property, and is marked if that is required. -/
theorem WritesNamed.exists_property {written : Option Value} (h : WritesNamed schema written)
    {properties : Members} (hproperties : Members.find schema "properties" = .obj properties)
    {name : String} {v : Value} (hv : (name, v) ∈ parametersIn written) :
    ∃ now isRequired kept, v = .obj kept ∧ (name, .obj now) ∈ typedObject properties
      ∧ (listOrEmpty schema "required").holds name = .ok isRequired
      ∧ Schema.acceptParameter? (namedFields isRequired now) = some kept := by
  obtain ⟨parameters, hparameters, heq⟩ := h.exists_parameters hproperties
  rw [heq] at hv
  obtain ⟨fields, kept, hfields, hkept, rfl⟩ := mem_acceptedMembers_iff.mp hv
  obtain ⟨⟨_, now⟩, hnow, hstep⟩ := (Outcome.mem_mapM_iff hparameters).mp hfields
  obtain ⟨isRequired, hheld, hresult⟩ := namedParameter_eq_ok.mp hstep
  cases hresult
  exact ⟨now, isRequired, kept, rfl, mem_objectProperties_iff.mp hnow, hheld, hkept⟩

/-- The names of the parameters that are written: those of the properties whose types, once
references are types, are accepted. -/
theorem WritesNamed.mem_keys_iff {written : Option Value} (h : WritesNamed schema written)
    {properties : Members} (hproperties : Members.find schema "properties" = .obj properties)
    {name : String} :
    name ∈ Entries.keys (parametersIn written)
      ↔ ∃ now, (name, .obj now) ∈ typedObject properties
          ∧ Schema.isAccepted (Members.find now "type").nonNull? = true := by
  obtain ⟨parameters, hparameters, heq⟩ := h.exists_parameters hproperties
  rw [heq, mem_keys_acceptedMembers_iff]
  constructor
  · -- A parameter that is accepted came of a property, and has its type.
    rintro ⟨fields, hfields, htype⟩
    obtain ⟨⟨_, now⟩, hnow, hstep⟩ := (Outcome.mem_mapM_iff hparameters).mp hfields
    obtain ⟨isRequired, _, hresult⟩ := namedParameter_eq_ok.mp hstep
    cases hresult
    rw [get?_type_namedFields] at htype
    exact ⟨now, mem_objectProperties_iff.mp hnow, htype⟩
  · -- Each property gave a parameter, and this one is accepted.
    rintro ⟨now, hnow, htype⟩
    have hproperty := mem_objectProperties_iff.mpr hnow
    obtain ⟨parameter, hstep⟩ := Outcome.exists_of_mapM hparameters hproperty
    obtain ⟨isRequired, _, rfl⟩ := namedParameter_eq_ok.mp hstep
    refine ⟨_, (Outcome.mem_mapM_iff hparameters).mpr ⟨_, hproperty, hstep⟩, ?_⟩
    rw [get?_type_namedFields]
    exact htype

end Ramlify.Raml
