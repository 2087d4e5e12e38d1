import Ramlify.Proofs.Raml.KeptParameters
import Ramlify.Proofs.Raml.MethodOutline
import Ramlify.Proofs.StoredRequest

/-!
# Ramlify — parameters that are required

A property is required because its schema lists it, or because it is marked itself. Named parameters
heed both. The parameters of the address, which the query of an operation is among, heed the mark
only; so the query of a trait and the same query of an operation can differ in what is required.

* **`get?_required_addressParameter`** — the mark of a parameter of the address.
* **`WritesQuery`** — where the query of an operation is written.
* **`isFlagged_of_writesNamed_iff`**, **`isFlagged_of_writesQuery_iff`** — which parameters are
  required there.
* **`required_flagged`** — both ways, and when they agree.
-/

namespace Ramlify.Raml

open Json (NamesOnce)
open Schema (isTextSchema typedObject requiredItems)

/-! ## Parameters of the address

The mark is one of the fields that are taken over. Nothing else is written under its name, so it
reads as in the property. -/

/-- A parameter of the address takes over whether it is required as its property says. -/
theorem get?_required_addressFields (schema : Members) :
    Entries.get? (addressFields schema) "required"
      = (Members.find schema "required").nonNull? := by
  rw [← Schema.get?_carriedFields schema (by decide)]
  unfold addressFields
  dsimp only
  rw [Entries.get?_put_of_ne _ _ (by decide), Members.get?_putGiven_of_ne _ _ (by decide)]
  cases Entries.get? schema "items" with
  | none => exact Members.get?_putGiven_of_ne _ _ (by decide)
  | some items =>
    exact (Entries.get?_put_of_ne _ _ (by decide)).trans
      (Members.get?_putGiven_of_ne _ _ (by decide))

/-- The name and the mark of a parameter of the address are those of its property. -/
theorem get?_required_addressParameter {property parameter : String × Members}
    {a a' : Annotations} (h : addressParameter property a = .ok (parameter, a')) :
    (parameter.1, Entries.get? parameter.2 "required")
      = (property.1, (Members.find property.2 "required").nonNull?) := by
  obtain ⟨fields, _, hfields, hresult⟩ := Pass.bind_eq_ok.mp h
  cases hresult
  have hplain : Unmarked "required" := unmarked_of_head (by simp)
  have hsame : Entries.get? fields "required"
      = Entries.get? (addressFields property.2) "required" := by
    rw [← get?_unannotated fields hplain, unannotated_annotateMembers hfields,
      get?_unannotated _ hplain]
  rw [hsame, get?_required_addressFields]

/-- The query of an operation, written into its declaration. -/
inductive WritesQuery : Members → Option Value → Prop where
  | query {version : Version} {project : Project} {mediaType : Value} {e : Endpoint}
      {a a' : Annotations} {schema method : Members}
      (hread : e.request.read .query = .ok (.obj schema))
      (hmethod : methodOf version project mediaType e a = .ok (method, a')) :
      WritesQuery schema (Entries.get? method "queryParameters")

/-- What a schema with properties gives for the address, property by property. -/
theorem exists_of_addressParameters {schema properties : Members} {a a' : Annotations}
    {v : Option Value} (h : addressParameters (.obj schema) a = .ok (v, a'))
    (hproperties : Members.find schema "properties" = .obj properties) :
    ∃ parameters, (objectProperties properties).mapM addressParameter a = .ok (parameters, a')
      ∧ parametersIn v = acceptedMembers parameters := by
  obtain ⟨members, hmembers, hcases⟩ := addressParameters_cases h
  cases (schemaMembers_obj schema).symm.trans hmembers
  rw [hproperties] at hcases
  rcases hcases with ⟨hvacant, rfl, rfl⟩ | ⟨_, others, parameters, hothers, hparameters, rfl⟩
  · rw [List.isEmpty_iff.mp hvacant]
    exact ⟨[], rfl, rfl⟩
  · cases hothers
    exact ⟨parameters, hparameters, rfl⟩

/-- A parameter of a query comes from a property, and has its mark. -/
theorem WritesQuery.exists_property {schema properties : Members} {written : Option Value}
    (h : WritesQuery schema written)
    (hproperties : Members.find schema "properties" = .obj properties) {name : String} {v : Value}
    (hv : (name, v) ∈ parametersIn written) :
    ∃ fields kept, v = .obj kept ∧ (name, .obj fields) ∈ properties
      ∧ Entries.get? kept "required" = (Members.find fields "required").nonNull? := by
  cases h with
  | query hread hmethod =>
    obtain ⟨read, _, query, _, hread', hquery, hget⟩ := (methodParts hmethod).query
    cases hread.symm.trans hread'
    obtain ⟨parameters, hparameters, heq⟩ := exists_of_addressParameters hquery hproperties
    rw [hget, parametersIn_getD, heq] at hv
    obtain ⟨fields, kept, hfields, hkept, rfl⟩ := mem_acceptedMembers_iff.mp hv
    -- Names and marks go through the pass unchanged, parameter by parameter.
    have hseen : parameters.map (fun parameter =>
          (parameter.1, Entries.get? parameter.2 "required"))
        = (objectProperties properties).map fun property =>
            (property.1, (Members.find property.2 "required").nonNull?) :=
      Pass.map_eq_map_of_mapM (fun property b parameter b' hparameter =>
        get?_required_addressParameter hparameter) hparameters
    have hmem : (name, Entries.get? fields "required") ∈ parameters.map fun parameter =>
        (parameter.1, Entries.get? parameter.2 "required") := List.mem_map.mpr ⟨_, hfields, rfl⟩
    rw [hseen, List.mem_map] at hmem
    obtain ⟨⟨_, source⟩, hsource, hsame⟩ := hmem
    obtain ⟨rfl, hmark⟩ := Prod.mk.inj hsame
    refine ⟨source, kept, rfl, mem_objectProperties_iff.mp hsource, ?_⟩
    rw [Schema.get?_of_acceptParameter? hkept (by decide), ← hmark]

/-! ## Both ways

For a schema whose list of required names is a list, both ways give parameters, and they can be
compared. -/

/-- A schema of parameters: an object with properties, and with a list of those that are required if
some are. -/
structure IsParameterSchema (schema properties : Members) : Prop where
  once : NamesOnce (.obj schema)
  properties : Members.find schema "properties" = .obj properties
  required : ∀ v, Entries.get? schema "required" = some v → ∃ items, v = .list items

/-- What is marked as required. -/
def IsFlagged (parameter : Members) : Prop :=
  Entries.get? parameter "required" = some (.bool true)

section

variable {schema properties : Members} (h : IsParameterSchema schema properties)

include h

theorem IsParameterSchema.nodup : (Entries.keys properties).Nodup :=
  (h.once.of_get? (Members.get?_of_find h.properties nofun)).1

/-- The members of a property have different names. -/
theorem IsParameterSchema.nodup_property {name : String} {fields : Members}
    (hmem : (name, .obj fields) ∈ properties) : (Entries.keys fields).Nodup :=
  ((h.once.of_get? (Members.get?_of_find h.properties nofun)).of_get?
    (Entries.get?_of_mem h.nodup hmem)).1

/-- Whether a name is required by the list. -/
theorem IsParameterSchema.holds (name : String) :
    ∃ isRequired, (listOrEmpty schema "required").holds name = .ok isRequired
      ∧ (isRequired = true ↔ .str name ∈ requiredItems schema) := by
  unfold listOrEmpty requiredItems
  rw [Members.find]
  cases hget : Entries.get? schema "required" with
  | none => exact ⟨false, rfl, by simp⟩
  | some v =>
    obtain ⟨items, rfl⟩ := h.required v hget
    cases items with
    | nil => exact ⟨false, rfl, by simp⟩
    | cons item items => exact ⟨_, rfl, Schema.any_isText_iff⟩

end

section

variable {schema properties fields parameter : Members} {written : Option Value} {name : String}
  (h : IsParameterSchema schema properties) (hmem : (name, .obj fields) ∈ properties)
  (hwritten : (name, .obj parameter) ∈ parametersIn written)

include h hwritten

/-- A named parameter is required if it is listed. -/
theorem isFlagged_of_listed (hnamed : WritesNamed schema written)
    (hlisted : .str name ∈ requiredItems schema) : IsFlagged parameter := by
  obtain ⟨now, isRequired, kept, hkept, _, hheld, haccepted⟩ :=
    hnamed.exists_property h.properties hwritten
  cases hkept
  obtain ⟨_, hheld', hiff⟩ := h.holds name
  cases hheld.symm.trans hheld'
  rw [IsFlagged, Schema.get?_of_acceptParameter? haccepted (by decide), get?_required_namedFields,
    if_pos (hiff.mpr hlisted)]

include hmem

/-- A named parameter is required exactly if it is listed or marked. -/
theorem isFlagged_of_writesNamed_iff (hnamed : WritesNamed schema written)
    (htext : ¬ isTextSchema properties = true) :
    IsFlagged parameter
      ↔ .str name ∈ requiredItems schema ∨ Members.find fields "required" = .bool true := by
  obtain ⟨now, isRequired, kept, hkept, hnow, hheld, haccepted⟩ :=
    hnamed.exists_property h.properties hwritten
  cases hkept
  obtain ⟨rfl, _⟩ := (Schema.mem_typedObject_iff h.nodup hmem htext).mp hnow
  obtain ⟨_, hheld', hiff⟩ := h.holds name
  cases hheld.symm.trans hheld'
  -- Turning references into types does not touch the mark.
  have hmark : Members.find (typedObject fields) "required" = .bool true
      ↔ Members.find fields "required" = .bool true := by
    rw [Schema.find_required_typedObject (h.nodup_property hmem)]
    split
    · exact Iff.rfl
    · exact Schema.typed_eq_bool_iff
  rw [IsFlagged, Schema.get?_of_acceptParameter? haccepted (by decide), get?_required_namedFields,
    ← hiff, ← hmark]
  cases isRequired with
  | true => exact iff_of_true rfl (Or.inl rfl)
  | false =>
    rw [if_neg Bool.false_ne_true, Value.nonNull?_eq_some_iff (by simp)]
    exact (or_iff_right Bool.false_ne_true).symm

/-- A parameter of a query is required exactly if it is marked. -/
theorem isFlagged_of_writesQuery_iff (hquery : WritesQuery schema written) :
    IsFlagged parameter ↔ Members.find fields "required" = .bool true := by
  obtain ⟨source, kept, hkept, hsource, hmark⟩ := hquery.exists_property h.properties hwritten
  cases hkept
  have hsame := (Entries.get?_of_mem h.nodup hsource).symm.trans (Entries.get?_of_mem h.nodup hmem)
  cases hsame
  rw [IsFlagged, hmark]
  exact Value.nonNull?_eq_some_iff nofun

end

/-- **What is required.** Of the parameters of a schema:

* wherever they are written by their names, each one that the schema lists is required;
* in the query of an operation those are required that are marked, whether they are listed or not;
* so a parameter that is written by its name and in a query is required in both or in neither,
  exactly if it is marked or not listed. -/
theorem required_flagged {schema properties : Members} (h : IsParameterSchema schema properties) :
    (∀ written, WritesNamed schema written → ∀ name v, (name, v) ∈ parametersIn written →
        .str name ∈ requiredItems schema → ∃ parameter, v = .obj parameter ∧ IsFlagged parameter)
      ∧ (∀ written, WritesQuery schema written → ∀ name v, (name, v) ∈ parametersIn written →
        ∃ parameter fields, v = .obj parameter ∧ (name, .obj fields) ∈ properties
          ∧ (IsFlagged parameter ↔ Members.find fields "required" = .bool true))
      ∧ ∀ named query, WritesNamed schema named → WritesQuery schema query →
        ¬ isTextSchema properties = true → ∀ name fields parameter parameter',
        (name, .obj fields) ∈ properties → (name, .obj parameter) ∈ parametersIn named →
        (name, .obj parameter') ∈ parametersIn query →
        ((IsFlagged parameter ↔ IsFlagged parameter')
          ↔ (.str name ∈ requiredItems schema → Members.find fields "required" = .bool true)) := by
  refine ⟨?_, ?_, ?_⟩
  · intro written hnamed name v hv hlisted
    obtain ⟨_, _, parameter, rfl, _⟩ := hnamed.exists_property h.properties hv
    exact ⟨parameter, rfl, isFlagged_of_listed h hv hnamed hlisted⟩
  · intro written hquery name v hv
    obtain ⟨fields, parameter, rfl, hmem, _⟩ := hquery.exists_property h.properties hv
    exact ⟨parameter, fields, rfl, hmem, isFlagged_of_writesQuery_iff h hmem hv hquery⟩
  · intro named query hnamed hquery htext name fields parameter parameter' hmem hin hin'
    rw [isFlagged_of_writesNamed_iff h hmem hin hnamed htext,
      isFlagged_of_writesQuery_iff h hmem hin' hquery, or_iff_right_iff_imp]

def requiredNumber : Members := [("type", .str "integer"), ("required", .bool true)]

def plainNumber : Members := [("type", .str "integer")]

/-- Two properties that are listed, of which one is marked as well. -/
def pagingProperties : Members := [("limit", .obj requiredNumber), ("offset", .obj plainNumber)]

def pagingSchema : Members :=
  [("properties", .obj pagingProperties), ("required", .list [.str "limit", .str "offset"])]

/-- An operation with this query. -/
def pagingOperation : Endpoint where
  request := ({ path := "/pets", method := "get" } : Request).setQuery (.obj pagingSchema)

/-- A trait with the same one. -/
def pagingTrait : Trait where
  name := "paged"
  query := pagingSchema

/-- The query of the operation is read as the schema. -/
theorem read_pagingOperation : pagingOperation.request.read .query = .ok (.obj pagingSchema) := by
  have hstorable : Json.Storable (.obj pagingSchema) := by
    simp [pagingSchema, pagingProperties, requiredNumber, plainNumber, Json.Storable,
      Json.StorableMembers, Json.StorableItems]
  exact Request.read_setQuery _ hstorable (by decide)

set_option maxRecDepth 100000 in
/-- The declaration of the operation has the parameters as they are. -/
theorem methodOf_pagingOperation : methodOf .v10 {} (.str "") pagingOperation {}
    = .ok ([("queryParameters", .obj pagingProperties)], {}) := by
  have hheaders : pagingOperation.request.read .headers = .ok (.obj []) := Request.parse_emptyObject
  have hpath : pagingOperation.request.read .pathParams = .ok (.obj []) := Request.parse_emptyObject
  unfold methodOf addExchange
  dsimp only
  rw [hheaders, read_pagingOperation, hpath]
  rfl

/-- The parameters of the trait. -/
def pagingParameters : Members :=
  [("limit", .obj requiredNumber), ("offset", .obj requiredNumber)]

theorem traitFields_pagingTrait : traitFields .v10 "" pagingTrait
    = .ok [("queryParameters", .obj pagingParameters)] := rfl

theorem writes_paging :
    WritesNamed pagingSchema (some (.obj pagingParameters))
      ∧ WritesQuery pagingSchema (some (.obj pagingProperties)) :=
  ⟨.traitQuery traitFields_pagingTrait, .query read_pagingOperation methodOf_pagingOperation⟩

theorem isParameterSchema_paging : IsParameterSchema pagingSchema pagingProperties where
  once := by
    simp [pagingSchema, pagingProperties, requiredNumber, plainNumber, NamesOnce,
      Json.NamesOnceMembers, Json.NamesOnceItems, Entries.keys]
  properties := rfl
  required := fun _ hget => ⟨_, (Option.some.inj hget).symm⟩

/-- The property that is listed and not marked is required in the trait, and the query of the
operation differs from it in this. -/
theorem required_flagged_paging :
    IsParameterSchema pagingSchema pagingProperties
      ∧ ∃ parameter, ("offset", .obj parameter) ∈ pagingParameters ∧ IsFlagged parameter
        ∧ ¬ (IsFlagged parameter ↔ IsFlagged plainNumber) := by
  obtain ⟨hnamed, hquery⟩ := writes_paging
  obtain ⟨hlisted, _, hagree⟩ := required_flagged isParameterSchema_paging
  have hoffset : ("offset", .obj plainNumber) ∈ pagingProperties := by simp [pagingProperties]
  have hin : ("offset", .obj requiredNumber) ∈ pagingParameters := by
    simp [pagingParameters]
  have hlist : .str "offset" ∈ requiredItems pagingSchema := by
    simp [requiredItems, pagingSchema, Members.find, Entries.get?]
  have htext : ¬ isTextSchema pagingProperties = true := by decide
  have hunmarked : Members.find plainNumber "required" ≠ .bool true := by
    simp [plainNumber, Members.find, Entries.get?]
  obtain ⟨parameter, hparameter, hflagged⟩ := hlisted _ hnamed "offset" _ hin hlist
  cases hparameter
  -- The query agrees with the trait only if the listed property is marked, and it is not.
  have hdiffer := hagree _ _ hnamed hquery htext "offset" plainNumber _ _ hoffset hin hoffset
  exact ⟨isParameterSchema_paging, _, hin, hflagged, fun hsame =>
    hunmarked (hdiffer.mp hsame hlist)⟩

/-- **A query does not heed the list**: a parameter that its schema lists as required is not
required in the query of an operation, while the trait with the same query requires it. -/
theorem listed_not_required :
    .str "offset" ∈ requiredItems pagingSchema
      ∧ (∃ written, WritesQuery pagingSchema written
        ∧ ("offset", .obj plainNumber) ∈ parametersIn written ∧ ¬ IsFlagged plainNumber)
      ∧ ∃ written parameter, WritesNamed pagingSchema written
        ∧ ("offset", .obj parameter) ∈ parametersIn written ∧ IsFlagged parameter := by
  obtain ⟨hnamed, hquery⟩ := writes_paging
  refine ⟨?_, ⟨_, hquery, ?_, nofun⟩, ⟨_, requiredNumber, hnamed, ?_, rfl⟩⟩
  · simp [requiredItems, pagingSchema, Members.find, Entries.get?]
  · simp [parametersIn, pagingProperties]
  · simp [parametersIn, pagingParameters]

end Ramlify.Raml
