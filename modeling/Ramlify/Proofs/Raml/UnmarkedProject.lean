import Ramlify.Proofs.Raml.AnnotationNames
import Ramlify.Raml.Method

/-!
# Ramlify — projects without annotation names of their own

A project names many things: schema members, parameters, media types, methods, extensions. This
module says what it means that none of these names is that of an annotation (`ProjectUnmarked`, with
one structure for each record a project consists of), and that the parts of a definition that are
made without writing annotations are then free of annotation names: bodies, responses, headers,
traits, types and security schemes.

Where a record keeps the text of a schema, the condition is about what the text is read as.
-/

namespace Ramlify.Raml

/-! ## Records without annotation names

One structure for each record, with a field for each of its fields that names something. -/

/-- A text that is no JSON or is read as a value without annotation names. -/
def TextUnmarked (text : String) : Prop :=
  ∀ v, Json.parse text = .ok v → v.AllNames Unmarked

/-- A body entry without annotation names, also in the texts of its schema and its example. -/
structure EntryUnmarked (entry : Members) : Prop where
  members : entry.AllNames Unmarked
  schema : ∀ text, Members.find entry "body" = .str text → TextUnmarked text
  sample : ∀ text, Members.find entry "example" = .str text → TextUnmarked text

structure RequestUnmarked (r : Request) : Prop where
  method : Unmarked r.method
  headers : TextUnmarked r.headers
  query : TextUnmarked (Request.filled r.query)
  pathParams : TextUnmarked (Request.filled r.pathParams)
  bodies : ∀ entry ∈ r.bodies, EntryUnmarked entry

structure ResponseUnmarked (response : Response) : Prop where
  body : TextUnmarked response.body
  headers : response.headers.AllNames Unmarked
  sample : ∀ text, response.sample = some text → TextUnmarked text

/-- An operation without annotation names. What its extensions become are annotations, so here it
is the names within them that matter. -/
structure EndpointUnmarked (e : Endpoint) : Prop where
  request : RequestUnmarked e.request
  consumes : ∀ type ∈ e.consumes, Unmarked type
  produces : ∀ type ∈ e.produces, Unmarked type
  responses : ∀ response ∈ e.responses, ResponseUnmarked response
  responseExtensions : e.responseExtensions.AllNames Unmarked
  extensions : e.extensions.AllNames Unmarked

structure TraitUnmarked (trait : Trait) : Prop where
  query : trait.query.AllNames Unmarked
  headers : trait.headers.AllNames Unmarked
  responses : ∀ response ∈ trait.responses, ResponseUnmarked response

structure SchemaUnmarked (schema : NamedSchema) : Prop where
  name : Unmarked schema.name
  definition : TextUnmarked schema.definition

structure TransportUnmarked (transport : ApiKeyTransport) : Prop where
  name : Unmarked transport.name
  externalName : ∀ name, transport.externalName = some name → Unmarked name

structure SchemesUnmarked (schemes : SecuritySchemes) : Prop where
  oauth2 : ∀ scheme name, schemes.oauth2 = some scheme → scheme.name = some name → Unmarked name
  basic : ∀ scheme name, schemes.basic = some scheme → scheme.name = some name → Unmarked name
  apiKey : ∀ scheme transport, schemes.apiKey = some scheme →
    transport ∈ scheme.headers ++ scheme.query → TransportUnmarked transport

structure EnvironmentUnmarked (env : Environment) : Prop where
  consumes : ∀ type ∈ env.consumes, Unmarked type
  produces : ∀ type ∈ env.produces, Unmarked type
  securitySchemes : SchemesUnmarked env.securitySchemes
  externalDocs : ∀ docs, env.externalDocs = some docs → docs.extensions.AllNames Unmarked
  contact : ∀ contact, env.contact = some contact → contact.extensions.AllNames Unmarked
  license : ∀ license, env.license = some license → license.extensions.AllNames Unmarked
  extensions : env.extensions.AllNames Unmarked

/-- A project in which no name, at any depth, is that of an annotation. -/
structure ProjectUnmarked (project : Project) : Prop where
  endpoints : ∀ e ∈ project.endpoints, EndpointUnmarked e
  schemas : ∀ schema ∈ project.schemas, SchemaUnmarked schema
  traits : ∀ trait ∈ project.traits, TraitUnmarked trait
  environment : EnvironmentUnmarked project.environment
  extensions : project.extensions.AllNames Unmarked
  endpointExtensions : project.endpointExtensions.AllNames Unmarked
  tags : ∀ tag ∈ project.tags, Members.AllNames Unmarked tag

/-! ## Parameters

Parameters have the names of their properties and fields of fixed names. Neither accepting nor
ordering them brings in others. -/

section

variable {ok : String → Prop}

/-- Parameters and all their fields have allowed names. -/
def ParametersAllowed (ok : String → Prop) (parameters : List (String × Members)) : Prop :=
  ∀ name fields, (name, fields) ∈ parameters → ok name ∧ Members.AllNames ok fields

/-- Parameters as the members of an object. -/
theorem allNames_parameterMap {parameters : List (String × Members)}
    (h : ParametersAllowed ok parameters) : (Schema.parameterMap parameters).AllNames ok := by
  rw [Schema.parameterMap, Value.allNames_obj_iff]
  intro name v hmem
  obtain ⟨⟨other, fields⟩, hparameter, heq⟩ := List.mem_map.mp hmem
  cases heq
  obtain ⟨hname, hfields⟩ := h other fields hparameter
  exact ⟨hname, Value.allNames_obj_iff.mpr hfields⟩

theorem allNames_accepted {parameters : List (String × Members)}
    (h : ParametersAllowed ok parameters) : (accepted parameters).AllNames ok := by
  apply allNames_parameterMap
  intro name fields hmem
  obtain ⟨⟨other, all⟩, hparameter, haccepted⟩ := List.mem_filterMap.mp hmem
  obtain ⟨kept, hkept, heq⟩ := Option.map_eq_some_iff.mp haccepted
  cases heq
  obtain ⟨hname, hall⟩ := h other all hparameter
  refine ⟨hname, ?_⟩
  simp only [Schema.acceptParameter?] at hkept
  split at hkept
  · cases hkept
  · rw [← Option.some.inj hkept]
    exact hall.filter _

/-- The properties that are objects have names of the map. -/
theorem objectProperties_allowed {properties : Members} (h : properties.AllNames ok) :
    ParametersAllowed ok (objectProperties properties) := by
  intro name fields hmem
  obtain ⟨⟨other, v⟩, hproperty, hobj⟩ := List.mem_filterMap.mp hmem
  cases v with
  | obj members =>
    cases hobj
    obtain ⟨hname, hv⟩ := h other _ hproperty
    exact ⟨hname, Value.allNames_obj_iff.mp hv⟩
  | null | bool | int | float | str | list => cases hobj

end

/-- The fields that are carried over have fixed names. -/
theorem unmarked_carriedFieldNames : ∀ name ∈ Schema.carriedFieldNames, Unmarked name := by
  intro name hname
  apply unmarked_of_head
  simp only [Schema.carriedFieldNames, List.mem_cons, List.not_mem_nil, or_false] at hname
  rcases hname with rfl | rfl | rfl | rfl | rfl | rfl | rfl | rfl | rfl | rfl | rfl | rfl | rfl
  all_goals simp

/-- What is carried over comes from the schema. -/
theorem allNames_carriedFields {schema : Members} (h : schema.AllNames Unmarked) :
    (Schema.carriedFields schema).AllNames Unmarked := by
  intro name v hmem
  obtain ⟨field, hfield, hv⟩ := List.mem_filterMap.mp hmem
  split at hv
  · cases hv
  · cases hv
    exact ⟨unmarked_carriedFieldNames name hfield, h.find name⟩

/-- Putting some members first only changes their order. -/
theorem allNames_orderFirst {members : Members} (h : members.AllNames Unmarked)
    (names : List String) : (Schema.orderFirst names members).AllNames Unmarked := by
  refine Members.AllNames.append ?_ (h.filter _)
  apply Members.AllNames.ofList
  intro name v hmem
  obtain ⟨other, _, hget⟩ := List.mem_filterMap.mp hmem
  obtain ⟨w, hw, heq⟩ := Option.map_eq_some_iff.mp hget
  cases heq
  exact h name v (Entries.mem_of_get? hw)

/-- A named parameter has the name of its property. -/
theorem namedParameter_allowed {required : Value} {property parameter : String × Members}
    (h : namedParameter required property = .ok parameter) (hname : Unmarked property.1)
    (hfields : property.2.AllNames Unmarked) :
    Unmarked parameter.1 ∧ parameter.2.AllNames Unmarked := by
  unfold namedParameter at h
  obtain ⟨isRequired, _, h⟩ := Outcome.bind_eq_ok.mp h
  cases h
  refine ⟨hname, allNames_orderFirst ?_ _⟩
  split
  · exact (allNames_carriedFields hfields).put (unmarked_of_head (by simp)) (Value.allNames_bool _)
  · exact allNames_carriedFields hfields

/-- The named parameters of a schema, which is searched for references first. -/
theorem allNames_namedParametersOf {schema : Members} {result : Option Value}
    (h : namedParametersOf schema = .ok result) (hschema : schema.AllNames Unmarked) :
    (result.getD .null).AllNames Unmarked := by
  dsimp only [namedParametersOf] at h
  split at h
  · cases h
    exact Value.allNames_null
  · obtain ⟨properties, hproperties, h⟩ := Outcome.bind_eq_ok.mp h
    obtain ⟨parameters, hparameters, h⟩ := Outcome.bind_eq_ok.mp h
    cases h
    have htyped := allNames_typed _ (hschema.find "properties")
    rw [Value.members_eq_ok hproperties, Value.allNames_obj_iff] at htyped
    -- Each parameter comes from a property, whose name it keeps.
    apply allNames_accepted
    intro name fields hmem
    obtain ⟨property, hproperty, hnamed⟩ := Outcome.mem_of_mapM hparameters hmem
    obtain ⟨hname, hfields⟩ :=
      objectProperties_allowed htyped property.1 property.2 hproperty
    exact namedParameter_allowed hnamed hname hfields

theorem allNames_namedParameters {schema : Value} {result : Option Value}
    (h : namedParameters schema = .ok result) (hschema : schema.AllNames Unmarked) :
    (result.getD .null).AllNames Unmarked := by
  unfold namedParameters at h
  split at h
  · cases h
    exact Value.allNames_null
  · obtain ⟨members, hmembers, h⟩ := Outcome.bind_eq_ok.mp h
    rw [Value.members_eq_ok hmembers, Value.allNames_obj_iff] at hschema
    exact allNames_namedParametersOf h hschema

/-! ## Bodies

Bodies are made from schemas and examples that are stored as texts. -/

/-- What is read from a stored text is what the condition on the text is about. -/
theorem allNames_parseStored {v w : Value} (h : Json.parseStored v = .ok w)
    (hv : ∀ text, v = .str text → TextUnmarked text) : w.AllNames Unmarked := by
  cases v with
  | str text => exact hv text rfl w h
  | null | bool | int | float | list | obj => cases h

/-- An example is read as JSON, or is the text that it is. -/
theorem allNames_sampleValue {v w : Value} (h : Version.sampleValue v = .ok w)
    (hv : v.AllNames Unmarked) (htext : ∀ text, v = .str text → TextUnmarked text) :
    w.AllNames Unmarked := by
  cases v with
  | str text =>
    simp only [Version.sampleValue] at h
    split at h
    · next parsed hparse =>
      cases h
      exact htext text rfl w hparse
    · cases h
    · cases h
      exact hv
  | null | bool | int | float | list | obj =>
    cases h
    exact hv

/-- A body has the names in its schema and in its example. -/
theorem allNames_body {version : Version} {entry : Members} {v : Value}
    (h : version.body entry = .ok v) (hentry : EntryUnmarked entry) : v.AllNames Unmarked := by
  have hsample : (Members.find entry "example").AllNames Unmarked := hentry.members.find _
  dsimp only [Version.body] at h
  split at h
  · cases h
    exact Value.allNames_obj_iff.mpr Members.allNames_nil
  · obtain ⟨schema, hparse, h⟩ := Outcome.bind_eq_ok.mp h
    have hschema := allNames_parseStored hparse hentry.schema
    split at h
    · split at h
      · cases h
        exact allNames_typed schema hschema
      · obtain ⟨sample, hread, h⟩ := Outcome.bind_eq_ok.mp h
        exact allNames_put h (allNames_typed schema hschema) (unmarked_of_head (by simp))
          (allNames_sampleValue hread hsample hentry.sample)
    · -- RAML 0.8 keeps the schema as a text, which has no names.
      obtain ⟨name, _, h⟩ := Outcome.bind_eq_ok.mp h
      have hresult : ∀ text : String,
          Members.AllNames Unmarked [("schema", .str text)] := fun text =>
        Members.allNames_cons_iff.mpr
          ⟨⟨unmarked_of_head (by simp), Value.allNames_str _⟩, Members.allNames_nil⟩
      split at h
      · cases h
        exact Value.allNames_obj_iff.mpr (hresult _)
      · cases h
        refine Value.allNames_obj_iff.mpr ((hresult _).append ?_)
        exact Members.allNames_cons_iff.mpr
          ⟨⟨unmarked_of_head (by simp), hsample⟩, Members.allNames_nil⟩

theorem allNames_fileType {field : Members} (h : field.AllNames Unmarked) :
    (Version.fileType field).AllNames Unmarked := by
  unfold Version.fileType
  split
  · exact h.put (unmarked_of_head (by simp)) (Value.allNames_str _)
  · exact h

/-- The properties of a form are those of its schema. -/
theorem allNames_propertiesOf {schema properties : Members}
    (h : Version.propertiesOf schema = .ok properties) (hschema : schema.AllNames Unmarked) :
    properties.AllNames Unmarked := by
  dsimp only [Version.propertiesOf] at h
  split at h
  · cases h
    exact Members.allNames_nil
  · have hfind := hschema.find "properties"
    rw [Value.members_eq_ok h] at hfind
    exact Value.allNames_obj_iff.mp hfind

/-- A form field of RAML 1.0 has the name of its property. -/
theorem formField_allowed {property field : String × Value}
    (h : Version.formField property = .ok field) (hname : Unmarked property.1)
    (hv : property.2.AllNames Unmarked) : Unmarked field.1 ∧ field.2.AllNames Unmarked := by
  unfold Version.formField at h
  obtain ⟨members, hmembers, h⟩ := Outcome.bind_eq_ok.mp h
  cases h
  rw [Value.members_eq_ok hmembers] at hv
  exact ⟨hname, Value.allNames_obj_iff.mpr
    (allNames_fileType ((Value.allNames_obj_iff.mp hv).filter _))⟩

/-- A form parameter of RAML 0.8 has the name of its property. -/
theorem formParameter_allowed {required : Value} {property : String × Value}
    {parameter : String × Members}
    (h : Version.formParameter required property = .ok parameter) (hname : Unmarked property.1)
    (hv : property.2.AllNames Unmarked) :
    Unmarked parameter.1 ∧ parameter.2.AllNames Unmarked := by
  unfold Version.formParameter at h
  obtain ⟨fields, hfields, h⟩ := Outcome.bind_eq_ok.mp h
  obtain ⟨isRequired, _, h⟩ := Outcome.bind_eq_ok.mp h
  obtain ⟨members, hmembers, hcarried⟩ := Outcome.bind_eq_ok.mp hfields
  cases hcarried
  rw [Value.members_eq_ok hmembers] at hv
  have hfile := allNames_fileType (allNames_carriedFields (Value.allNames_obj_iff.mp hv))
  split at h
  · cases h
    exact ⟨hname, hfile.put (unmarked_of_head (by simp)) (Value.allNames_bool _)⟩
  · cases h
    exact ⟨hname, hfile⟩

/-- A form has its properties under a fixed name. -/
theorem allNames_form {version : Version} {schema v : Value} (h : version.form schema = .ok v)
    (hschema : schema.AllNames Unmarked) : v.AllNames Unmarked := by
  unfold Version.form at h
  obtain ⟨members, hmembers, h⟩ := Outcome.bind_eq_ok.mp h
  obtain ⟨properties, hproperties, h⟩ := Outcome.bind_eq_ok.mp h
  rw [Value.members_eq_ok hmembers, Value.allNames_obj_iff] at hschema
  have hallowed := allNames_propertiesOf hproperties hschema
  -- The list of what is required goes to the properties of RAML 1.0, and has no names either.
  have hrequired : (Version.orEmptyList (Members.find members "required")).AllNames Unmarked := by
    unfold Version.orEmptyList
    split
    · exact Value.allNames_list_iff.mpr (List.forall_mem_nil _)
    · exact hschema.find _
  split at h
  · obtain ⟨fields, hfields, h⟩ := Outcome.bind_eq_ok.mp h
    cases h
    apply allNames_spreadRequired
    rw [Value.allNames_obj_iff, Members.allNames_cons_iff, Members.allNames_cons_iff]
    refine ⟨⟨unmarked_of_head (by simp), ?_⟩, ⟨unmarked_of_head (by simp), hrequired⟩,
      Members.allNames_nil⟩
    rw [Value.allNames_obj_iff]
    intro name field hmem
    obtain ⟨property, hproperty, hfield⟩ := Outcome.mem_of_mapM hfields hmem
    obtain ⟨hname, hv⟩ := hallowed property.1 property.2 hproperty
    exact formField_allowed hfield hname hv
  · obtain ⟨parameters, hparameters, h⟩ := Outcome.bind_eq_ok.mp h
    cases h
    rw [Value.allNames_obj_iff, Members.allNames_cons_iff]
    refine ⟨⟨unmarked_of_head (by simp), ?_⟩, Members.allNames_nil⟩
    apply allNames_accepted
    intro name fields hmem
    obtain ⟨property, hproperty, hparameter⟩ := Outcome.mem_of_mapM hparameters hmem
    obtain ⟨hname, hv⟩ := hallowed property.1 property.2 hproperty
    exact formParameter_allowed hparameter hname hv

/-- A body is mapped as a form or as a schema, by its media type. -/
theorem allNames_mappedBody {version : Version} {entry : Members} {mediaType : String}
    {result : Option Value} (h : mappedBody version entry mediaType = .ok result)
    (hentry : EntryUnmarked entry) : (result.getD .null).AllNames Unmarked := by
  unfold mappedBody at h
  split at h
  · obtain ⟨v, hbody, h⟩ := Outcome.bind_eq_ok.mp h
    cases h
    exact allNames_spreadRequired (allNames_body hbody hentry)
  · split at h
    · obtain ⟨schema, hparse, h⟩ := Outcome.bind_eq_ok.mp h
      obtain ⟨v, hform, h⟩ := Outcome.bind_eq_ok.mp h
      cases h
      exact allNames_form hform
        (allNames_typed schema (allNames_parseStored hparse hentry.schema))
    · cases h
      exact Value.allNames_null

/-- The body of a request stands under its media type. -/
theorem allNames_requestBody {version : Version} {entry : Members} {mediaType : String}
    {result : Option Value} (h : requestBody version entry mediaType = .ok result)
    (hentry : EntryUnmarked entry) (htype : Unmarked mediaType) :
    (result.getD .null).AllNames Unmarked := by
  -- The media type is a name too.
  have hsingle : ∀ v : Value, v.AllNames Unmarked →
      (Value.obj [(mediaType, v)]).AllNames Unmarked := by
    intro v hv
    exact Value.allNames_obj_iff.mpr
      (Members.allNames_cons_iff.mpr ⟨⟨htype, hv⟩, Members.allNames_nil⟩)
  dsimp only [requestBody] at h
  split at h
  · cases h
    exact Value.allNames_null
  · obtain ⟨mapped, hmapped, h⟩ := Outcome.bind_eq_ok.mp h
    have hbody := allNames_mappedBody hmapped hentry
    split at h
    · cases h
      exact Value.allNames_null
    · split at h
      · cases h
        exact hsingle _ hbody
      · obtain ⟨v, hput, h⟩ := Outcome.bind_eq_ok.mp h
        cases h
        exact hsingle v (allNames_put hput hbody (unmarked_of_head (by simp))
          (hentry.members.find _))

/-! ## Responses

Responses stand under codes, which are no annotation names. -/

/-- The body of a response stands under a media type. -/
theorem allNames_responseBody {version : Version} {mediaType : String} {response : Response}
    {v : Value} (h : responseBody version mediaType response = .ok v)
    (hresponse : ResponseUnmarked response) (htype : Unmarked mediaType) :
    v.AllNames Unmarked := by
  -- The body of a response is made like that of a request, from an entry of its own.
  have hentry : EntryUnmarked
      [("body", .str response.body), ("example", Value.ofText? response.sample)] := by
    constructor
    · simp only [Members.allNames_cons_iff]
      exact ⟨⟨unmarked_of_head (by simp), Value.allNames_str _⟩,
        ⟨unmarked_of_head (by simp), Value.allNames_ofText? _⟩, Members.allNames_nil⟩
    · intro text htext
      cases htext
      exact hresponse.body
    · intro text htext
      cases hsample : response.sample with
      | none =>
        rw [hsample] at htext
        cases htext
      | some sample =>
        rw [hsample] at htext
        cases htext
        exact hresponse.sample _ hsample
  dsimp only [responseBody] at h
  split at h
  · cases h
    exact Value.allNames_null
  · obtain ⟨body, hbody, h⟩ := Outcome.bind_eq_ok.mp h
    split at h
    · cases h
      exact Value.allNames_null
    · cases h
      exact Value.allNames_obj_iff.mpr (Members.allNames_cons_iff.mpr
        ⟨⟨htype, allNames_spreadRequired (allNames_body hbody hentry)⟩, Members.allNames_nil⟩)

/-- The headers of a response are named parameters. -/
theorem allNames_describedParameters {schema : Members} {result : Option Value}
    (h : describedParameters schema = .ok result) (hschema : schema.AllNames Unmarked) :
    (result.getD .null).AllNames Unmarked := by
  unfold describedParameters at h
  split at h
  · cases h
    exact Value.allNames_null
  · exact allNames_namedParametersOf h hschema

/-- A response has body, description and headers. -/
theorem allNames_responseFields {version : Version} {mediaType : String} {response : Response}
    {fields : Members} (h : responseFields version mediaType response = .ok fields)
    (hresponse : ResponseUnmarked response) (htype : Unmarked mediaType) :
    fields.AllNames Unmarked := by
  unfold responseFields at h
  obtain ⟨body, hbody, h⟩ := Outcome.bind_eq_ok.mp h
  obtain ⟨headers, hheaders, h⟩ := Outcome.bind_eq_ok.mp h
  cases h
  exact ((Members.allNames_nil.putGiven (unmarked_of_head (by simp))
    (allNames_responseBody hbody hresponse htype)).putGiven (unmarked_of_head (by simp))
    (Value.allNames_str _)).putGiven (unmarked_of_head (by simp))
    (allNames_describedParameters hheaders hresponse.headers)

/-- The responses of an operation under their codes. -/
theorem allNames_responsesByCode {version : Version} {mediaType : String}
    {responses : List Response} {declared : Members}
    (h : responsesByCode version mediaType responses = .ok declared)
    (hresponses : ∀ response ∈ responses, ResponseUnmarked response) (htype : Unmarked mediaType) :
    declared.AllNames Unmarked := by
  unfold responsesByCode at h
  obtain ⟨fields, hfields, h⟩ := Outcome.bind_eq_ok.mp h
  cases h
  apply Members.AllNames.ofList
  intro name v hmem
  obtain ⟨⟨code, response⟩, hcoded, hresult⟩ := Outcome.mem_of_mapM hfields hmem
  obtain ⟨other, hother, hcode⟩ := List.mem_filterMap.mp hcoded
  obtain ⟨_, hdigits, heq⟩ := Option.map_eq_some_iff.mp hcode
  cases heq
  obtain ⟨m, hm, hpair⟩ := Outcome.bind_eq_ok.mp hresult
  cases hpair
  exact ⟨unmarked_of_isDigits (Option.filter_eq_some_iff.mp hdigits).2,
    Value.allNames_obj_iff.mpr (allNames_responseFields hm (hresponses _ hother) htype)⟩

/-! ## Traits

Traits stand under words, which are no annotation names. -/

theorem allNames_traitParameters {name : String} {schema result : Members}
    (h : traitParameters name schema = .ok result) (hname : Unmarked name)
    (hschema : schema.AllNames Unmarked) : result.AllNames Unmarked := by
  dsimp only [traitParameters] at h
  split at h
  · cases h
    exact Members.allNames_nil
  · obtain ⟨parameters, hparameters, h⟩ := Outcome.bind_eq_ok.mp h
    cases h
    exact Members.allNames_cons_iff.mpr
      ⟨⟨hname, allNames_namedParametersOf hparameters hschema⟩, Members.allNames_nil⟩

/-- A trait has headers, query and responses. -/
theorem allNames_traitFields {version : Version} {mediaType : String} {trait : Trait}
    {fields : Members} (h : traitFields version mediaType trait = .ok fields)
    (htrait : TraitUnmarked trait) (htype : Unmarked mediaType) : fields.AllNames Unmarked := by
  unfold traitFields at h
  obtain ⟨query, hquery, h⟩ := Outcome.bind_eq_ok.mp h
  obtain ⟨headers, hheaders, h⟩ := Outcome.bind_eq_ok.mp h
  obtain ⟨responses, hresponses, h⟩ := Outcome.bind_eq_ok.mp h
  cases h
  refine Members.AllNames.putGiven (Members.AllNames.append ?_ ?_) (unmarked_of_head (by simp))
    (Value.allNames_obj_iff.mpr
      (allNames_responsesByCode hresponses htrait.responses htype))
  · exact allNames_traitParameters hquery (unmarked_of_head (by simp)) htrait.query
  · exact allNames_traitParameters hheaders (unmarked_of_head (by simp)) htrait.headers

theorem allNames_declareTrait {version : Version} {name : String} {trait traits result : Value}
    (h : version.declareTrait name trait traits = .ok result) (htrait : trait.AllNames Unmarked)
    (htraits : traits.AllNames Unmarked) : result.AllNames Unmarked := by
  unfold Version.declareTrait at h
  split at h
  · exact allNames_put h htraits (unmarked_camelCase name) htrait
  · cases h
    rw [Value.allNames_list_iff] at htraits ⊢
    intro v hv
    rcases List.mem_append.mp hv with hv | hv
    · exact htraits v hv
    · rw [List.mem_singleton.mp hv, Value.allNames_obj_iff, Members.allNames_cons_iff]
      exact ⟨⟨unmarked_camelCase name, htrait⟩, Members.allNames_nil⟩
  · cases h

theorem allNames_traitDeclarations {version : Version} {mediaType : String} {traits : List Trait}
    {result : Value} (h : traitDeclarations version mediaType traits = .ok result)
    (htraits : ∀ trait ∈ traits, TraitUnmarked trait) (htype : Unmarked mediaType) :
    result.AllNames Unmarked := by
  have hnone : version.noTraits.AllNames Unmarked := by
    cases version with
    | v10 => exact Value.allNames_obj_iff.mpr Members.allNames_nil
    | v08 => exact Value.allNames_list_iff.mpr (List.forall_mem_nil _)
  unfold traitDeclarations at h
  -- For any traits that are declared already, not only for none.
  generalize version.noTraits = declared at h hnone
  induction traits generalizing declared with
  | nil =>
    cases h
    exact hnone
  | cons trait traits ih =>
    rw [List.foldlM_cons] at h
    obtain ⟨next, hnext, h⟩ := Outcome.bind_eq_ok.mp h
    obtain ⟨fields, hfields, hnext⟩ := Outcome.bind_eq_ok.mp hnext
    have hfields := allNames_traitFields hfields (htraits trait List.mem_cons_self) htype
    exact ih (fun other hother => htraits other (List.mem_cons_of_mem _ hother)) next h
      (allNames_declareTrait hnext (Value.allNames_obj_iff.mpr hfields) hnone)

/-! ## Types

Types stand under the names of schemas. -/

theorem allNames_typeOf {schema : NamedSchema} {v : Value} (h : Version.typeOf schema = .ok v)
    (hschema : SchemaUnmarked schema) : v.AllNames Unmarked := by
  unfold Version.typeOf at h
  obtain ⟨parsed, hparse, h⟩ := Outcome.bind_eq_ok.mp h
  have htype := allNames_spreadRequired (allNames_typed parsed (hschema.definition _ hparse))
  split at h
  · cases h
    exact htype
  · obtain ⟨described, _, h⟩ := Outcome.bind_eq_ok.mp h
    split at h
    · cases h
      exact htype
    · exact allNames_put h htype (unmarked_of_head (by simp)) (Value.allNames_str _)

/-- All schemas of a project, as types or as texts. -/
theorem allNames_declareSchemas {version : Version} {schemas : List NamedSchema} {v : Value}
    (h : version.declareSchemas schemas = .ok v)
    (hschemas : ∀ schema ∈ schemas, SchemaUnmarked schema) : v.AllNames Unmarked := by
  cases version with
  -- The newer version has types under the names of the schemas.
  | v10 =>
    obtain ⟨types, htypes, h⟩ := Outcome.bind_eq_ok.mp h
    cases h
    rw [Value.allNames_obj_iff]
    apply Members.AllNames.ofList
    intro name type hmem
    obtain ⟨schema, hschema, htype⟩ := Outcome.mem_of_mapM htypes hmem
    obtain ⟨v, hv, heq⟩ := Outcome.bind_eq_ok.mp htype
    cases heq
    exact ⟨(hschemas schema hschema).name, allNames_typeOf hv (hschemas schema hschema)⟩
  -- The older one has texts, in a list.
  | v08 =>
    obtain ⟨texts, htexts, h⟩ := Outcome.bind_eq_ok.mp h
    cases h
    rw [Value.allNames_list_iff]
    intro v hv
    obtain ⟨schema, hschema, htext⟩ := Outcome.mem_of_mapM htexts hv
    obtain ⟨parsed, _, heq⟩ := Outcome.bind_eq_ok.mp htext
    cases heq
    rw [Value.allNames_obj_iff, Members.allNames_cons_iff]
    exact ⟨⟨(hschemas schema hschema).name, Value.allNames_str _⟩, Members.allNames_nil⟩

/-! ## Security

Declarations of security schemes have fixed names, besides the names of the schemes and of the
parameters that keys travel in. -/

/-- A name that may be missing, with a default. -/
theorem unmarked_textOr {default : String} {text : Option String} (h : Unmarked default)
    (htext : ∀ s, text = some s → Unmarked s) : Unmarked (textOr default text) := by
  unfold textOr
  split
  · exact h
  · split
    · exact h
    · exact htext _ rfl

/-- A scheme with keys is named by itself or by what its keys travel in. -/
theorem unmarked_apiKeyName {scheme : ApiKeyScheme}
    (h : ∀ transport ∈ scheme.headers ++ scheme.query, TransportUnmarked transport) :
    Unmarked scheme.declaredName := by
  have hfirst : ∀ transports : List ApiKeyTransport,
      (∀ transport ∈ transports, TransportUnmarked transport) →
        ∀ s, transports.head?.bind (·.externalName) = some s → Unmarked s := by
    intro transports htransports s hs
    obtain ⟨transport, hhead, hname⟩ := Option.bind_eq_some_iff.mp hs
    exact (htransports transport (List.mem_of_mem_head? hhead)).externalName s hname
  unfold ApiKeyScheme.declaredName
  refine unmarked_textOr (unmarked_textOr (unmarked_of_head (by simp)) ?_) ?_
  · exact hfirst _ fun transport htransport => h transport (List.mem_append_left _ htransport)
  · exact hfirst _ fun transport htransport => h transport (List.mem_append_right _ htransport)

/-- Of a scheme that grants scopes only the settings vary, and these have fixed names. -/
theorem allNames_oauth2Declaration (version : Version) (scheme : OAuth2Scheme) :
    (oauth2Declaration version scheme).AllNames Unmarked := by
  have hsettings : ∀ settings : Members, settings.AllNames Unmarked →
      (Value.obj [("type", .str "OAuth 2.0"), ("settings", .obj settings)]).AllNames Unmarked := by
    intro settings h
    simp only [Value.allNames_obj_iff, Members.allNames_cons_iff]
    exact ⟨⟨unmarked_of_head (by simp), Value.allNames_str _⟩,
      ⟨unmarked_of_head (by simp), h⟩, Members.allNames_nil⟩
  unfold oauth2Declaration
  apply hsettings
  -- The address may be missing, the grants are always there, and the scopes are there if there are
  -- any.
  refine Members.AllNames.append (Members.AllNames.append ?_ ?_) ?_
  · exact Members.allNames_nil.putGiven (unmarked_of_head (by simp)) (Value.allNames_ofText? _)
  · simp only [Members.allNames_cons_iff]
    exact ⟨⟨unmarked_of_head (by simp), Value.allNames_str _⟩,
      ⟨unmarked_of_head (by simp), Value.allNames_texts _⟩, Members.allNames_nil⟩
  · split
    · exact Members.allNames_nil
    · simp only [Members.allNames_cons_iff]
      exact ⟨⟨unmarked_of_head (by simp), Value.allNames_texts _⟩, Members.allNames_nil⟩

/-- A scheme with name and password is declared by its type. -/
theorem allNames_basicDeclaration (scheme : BasicScheme) :
    (basicDeclaration scheme).AllNames Unmarked := by
  rw [basicDeclaration, Value.allNames_obj_iff]
  refine Members.AllNames.putGiven ?_ (unmarked_of_head (by simp)) (Value.allNames_ofText? _)
  simp only [Members.allNames_cons_iff]
  exact ⟨⟨unmarked_of_head (by simp), Value.allNames_str _⟩, Members.allNames_nil⟩

theorem allNames_keyParameters {transports : List ApiKeyTransport}
    (h : ∀ transport ∈ transports, TransportUnmarked transport) :
    (keyParameters transports).AllNames Unmarked := by
  rw [keyParameters, Value.allNames_obj_iff]
  apply Members.AllNames.ofList
  intro name v hmem
  obtain ⟨transport, htransport, heq⟩ := List.mem_map.mp hmem
  cases heq
  refine ⟨(h transport htransport).name, ?_⟩
  rw [Value.allNames_obj_iff, Members.allNames_cons_iff]
  exact ⟨⟨unmarked_of_head (by simp), Value.allNames_str _⟩, Members.allNames_nil⟩

/-- A scheme with keys names the parameters that they travel in. -/
theorem allNames_apiKeyDeclaration (version : Version) {scheme : ApiKeyScheme}
    (h : ∀ transport ∈ scheme.headers ++ scheme.query, TransportUnmarked transport) :
    (apiKeyDeclaration version scheme).AllNames Unmarked := by
  -- The keys in headers and those in queries are declared alike.
  have hplace : ∀ (name : String) (transports : List ApiKeyTransport), Unmarked name →
      (∀ transport ∈ transports, TransportUnmarked transport) →
        Members.AllNames Unmarked
          (if transports.isEmpty then [] else [(name, keyParameters transports)]) := by
    intro name transports hname htransports
    split
    · exact Members.allNames_nil
    · exact Members.allNames_cons_iff.mpr
        ⟨⟨hname, allNames_keyParameters htransports⟩, Members.allNames_nil⟩
  rw [apiKeyDeclaration, Value.allNames_obj_iff]
  refine Members.AllNames.putGiven ?_ (unmarked_of_head (by simp)) (Value.allNames_ofText? _)
  simp only [Members.allNames_cons_iff, Value.allNames_obj_iff]
  refine ⟨⟨unmarked_of_head (by simp), Value.allNames_str _⟩,
    ⟨unmarked_of_head (by simp), Members.AllNames.append ?_ ?_⟩, Members.allNames_nil⟩
  · exact hplace _ _ (unmarked_of_head (by simp))
      fun transport htransport => h transport (List.mem_append_left _ htransport)
  · exact hplace _ _ (unmarked_of_head (by simp))
      fun transport htransport => h transport (List.mem_append_right _ htransport)

theorem allNames_schemeDeclarations (version : Version) {schemes : SecuritySchemes}
    (h : SchemesUnmarked schemes) : (schemeDeclarations version schemes).AllNames Unmarked := by
  unfold schemeDeclarations
  apply Members.AllNames.ofList
  refine Members.AllNames.append (Members.AllNames.append ?_ ?_) ?_
  -- Schemes without a name of their own have a fixed one.
  · intro name v hmem
    obtain ⟨scheme, hscheme, heq⟩ := List.mem_map.mp hmem
    cases heq
    exact ⟨unmarked_textOr (unmarked_of_head (by simp))
      fun s hs => h.oauth2 scheme s (Option.mem_toList.mp hscheme) hs,
      allNames_oauth2Declaration version scheme⟩
  · intro name v hmem
    obtain ⟨scheme, hscheme, hdeclared⟩ := List.mem_filterMap.mp hmem
    obtain ⟨found, hfound, heq⟩ := Option.map_eq_some_iff.mp hdeclared
    cases heq
    exact ⟨h.basic scheme name (Option.mem_toList.mp hscheme)
      (Option.filter_eq_some_iff.mp hfound).1, allNames_basicDeclaration scheme⟩
  · intro name v hmem
    obtain ⟨scheme, hscheme, heq⟩ := List.mem_map.mp hmem
    cases heq
    have hkept := Option.mem_toList.mp (List.mem_of_mem_filter hscheme)
    exact ⟨unmarked_apiKeyName fun transport => h.apiKey scheme transport hkept,
      allNames_apiKeyDeclaration version fun transport => h.apiKey scheme transport hkept⟩

/-- The declarations of schemes stand in a map or in a list of maps, by version. -/
theorem allNames_securitySchemes? (version : Version) {schemes : SecuritySchemes}
    (h : SchemesUnmarked schemes) :
    ((securitySchemes? version schemes).getD .null).AllNames Unmarked := by
  have hdeclared := allNames_schemeDeclarations version h
  unfold securitySchemes?
  split
  · exact Value.allNames_null
  · cases version with
    | v10 => exact Value.allNames_obj_iff.mpr hdeclared
    | v08 =>
      rw [Option.getD_some, Version.declarations, Value.allNames_list_iff]
      intro v hv
      obtain ⟨declaration, hmem, rfl⟩ := List.mem_map.mp hv
      rw [Value.allNames_obj_iff, Members.allNames_cons_iff]
      exact ⟨hdeclared declaration.1 declaration.2 hmem, Members.allNames_nil⟩

/-- References to schemes have the names of schemes. -/
theorem allNames_securedBy (required : SecuredBy) {schemes : SecuritySchemes}
    (h : SchemesUnmarked schemes) :
    (Value.list (securedBy required schemes)).AllNames Unmarked := by
  rw [Value.allNames_list_iff]
  unfold securedBy
  intro v hv
  rcases List.mem_append.mp hv with hv | hv
  · rcases List.mem_append.mp hv with hv | hv
    · split at hv
      · -- Only a scheme that grants scopes is referred to by an object.
        next scopes scheme hscopes hscheme =>
        rw [List.mem_singleton.mp hv, oauth2Reference]
        split
        · exact Value.allNames_str _
        · simp only [Value.allNames_obj_iff, Members.allNames_cons_iff]
          exact ⟨⟨unmarked_textOr (unmarked_of_head (by simp))
            fun s hs => h.oauth2 scheme s hscheme hs,
            ⟨unmarked_of_head (by simp), Value.allNames_texts _⟩, Members.allNames_nil⟩,
            Members.allNames_nil⟩
      · cases hv
    · split at hv
      · obtain ⟨name, _, rfl⟩ := List.mem_map.mp hv
        exact Value.allNames_str _
      · cases hv
  · split at hv
    · obtain ⟨scheme, _, rfl⟩ := List.mem_map.mp hv
      exact Value.allNames_str _
    · cases hv

end Ramlify.Raml
