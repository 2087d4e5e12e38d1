import Ramlify.Postman.Collection
import Ramlify.Proofs.Outcome
import Ramlify.Proofs.StoredRequest

/-!
# Ramlify — what is imported of a request

Importing a request can fail in many ways, but where it does not, the result can be told without
failures: `operation` reads the parts of a request, and `Operation.endpoint` stores them as texts.

* **`operationOf_eq_ok`** — what a request becomes, if it becomes anything.
* **`Operation.read_headers`**, `read_query`, `read_pathParams` — the parts are read as they were
  stored, because they are properties with texts for defaults (`AreProperties`).
-/

namespace Ramlify.Postman

/-! ## Properties

Headers, query, path variables and form fields all become properties with a type and a default, and
the default is a text or missing. That is why they can be stored and read again without a change. -/

/-- A property of an object schema with a default. -/
def property (type : String) (default : Value) : Value :=
  .obj [("type", .str type), ("default", default)]

/-- A default that a request can give. -/
def IsDefault (v : Value) : Prop := v = .null ∨ ∃ s, v = .str s

/-- Properties as they come from requests: of known types and with defaults that are texts. -/
def AreProperties (types : List String) (properties : Members) : Prop :=
  ∀ name v, (name, v) ∈ properties →
    ∃ type ∈ types, ∃ default, IsDefault default ∧ v = property type default

/-- The default that a value gives where it gives any. -/
def defaultFor : Value → Value
  | .str s => defaultOf s.toList
  | _ => .null

theorem isDefault_defaultOf (cs : List Char) : IsDefault (defaultOf cs) := by
  unfold defaultOf
  split
  · exact Or.inl rfl
  · exact Or.inr ⟨_, rfl⟩

theorem isDefault_defaultFor (v : Value) : IsDefault (defaultFor v) := by
  cases v with
  | str s => exact isDefault_defaultOf s.toList
  | null | bool | int | float | list | obj => exact Or.inl rfl

/-- Where a value gives a default at all, it is this one: only texts and vacant values do. -/
theorem defaultOfValue_eq_ok {v d : Value} (h : defaultOfValue v = .ok d) : d = defaultFor v := by
  unfold defaultOfValue at h
  cases v with
  | str s =>
    split at h
    · -- An empty text is vacant, and `defaultOf` gives nothing for it either.
      next hvacant =>
      cases h
      rw [defaultFor, defaultOf, if_pos]
      rw [String.isEmpty_iff.mp hvacant]
      rfl
    · cases h
      rfl
  | null | bool | int | float | list | obj =>
    split at h
    · cases h
      rfl
    · cases h

/-! ## Stored schemas

A stored part is read again as it was, since its numbers, of which there are none, cannot be too
long, and since no name stands twice in a property. -/

theorem AreProperties.storable {types : List String} {properties : Members}
    (h : AreProperties types properties) : Json.StorableMembers properties := by
  induction properties with
  | nil => trivial
  | cons entry rest ih =>
    obtain ⟨name, v⟩ := entry
    obtain ⟨type, _, default, hdefault, rfl⟩ := h name v List.mem_cons_self
    refine ⟨⟨trivial, ?_, trivial⟩, ih fun other w hw => h other w (List.mem_cons_of_mem _ hw)⟩
    rcases hdefault with rfl | ⟨s, rfl⟩ <;> trivial

theorem settled_property {type : String} {default : Value} (h : IsDefault default) :
    Json.settled (property type default) = property type default := by
  rcases h with rfl | ⟨s, rfl⟩ <;> rfl

/-- The properties of a schema are settled, each on its own; the names of the properties themselves
may stand twice. -/
theorem AreProperties.settledMembers {types : List String} {properties : Members}
    (h : AreProperties types properties) : Json.settledMembers properties = properties := by
  induction properties with
  | nil => rfl
  | cons entry rest ih =>
    obtain ⟨name, v⟩ := entry
    obtain ⟨type, _, default, hdefault, rfl⟩ := h name v List.mem_cons_self
    rw [Json.settledMembers, settled_property hdefault,
      ih fun other w hw => h other w (List.mem_cons_of_mem _ hw)]

/-- A schema is stored as JSON and not as a text. -/
theorem kind_objectSchema (properties : Members) : (objectSchema properties).kind ≠ .str := by
  rintro ⟨⟩

theorem storable_objectSchema {types : List String} {properties : Members}
    (h : AreProperties types properties) : Json.Storable (objectSchema properties) :=
  ⟨trivial, h.storable, trivial, trivial⟩

/-- A stored schema is read with each name once. -/
theorem settled_objectSchema {types : List String} {properties : Members}
    (h : AreProperties types properties) :
    Json.settled (objectSchema properties) = objectSchema (Entries.ofList properties) := by
  show Value.obj [("type", .str "object"),
    ("properties", .obj (Entries.ofList (Json.settledMembers properties))),
    ("required", .list [])] = _
  rw [h.settledMembers]
  rfl

/-- Keeping the last property of each name leaves properties. -/
theorem AreProperties.ofList {types : List String} {properties : Members}
    (h : AreProperties types properties) : AreProperties types (Entries.ofList properties) :=
  fun name v hv => h name v (Entries.mem_ofList hv)

/-! ## What a request says

The parts of a request as total functions: where the program would fail, they give something empty
instead. They are what the program reads wherever it does not fail. -/

/-- The letters of a text. -/
def lettersOf : Value → List Char
  | .str s => s.toList
  | _ => []

/-- The members of an object. -/
def membersOf : Value → Members
  | .obj members => members
  | _ => []

/-- The URL of a request. -/
def urlOf (m : Members) : List Char := lettersOf (Members.find m "url")

/-- The path of a request, with variables in angle brackets. -/
def pathOf (m : Members) : String := String.ofList (bracketChars (Text.firstField '?' (urlOf m)))

/-- The method of a request as it is given. -/
def givenMethod (m : Members) : String :=
  match Entries.get? m "method" with
  | none => "get"
  | some v => String.ofList (lettersOf v)

/-- The properties of the headers of a request. -/
def headersIn (m : Members) : Members := headerProperties (lettersOf (Members.find m "headers"))

/-- The properties of the query of a request. -/
def queryIn (m : Members) : Members :=
  queryProperties ((Text.secondField? '?' (urlOf m)).getD [])

/-- The path variables of a request with their literal values. -/
def literalsIn (m : Members) : Members :=
  (membersOf (Members.find m "pathVariables")).map fun pair => (pair.1, defaultFor pair.2)

/-- The properties of the path variables of a request. -/
def variablesIn (m : Members) : Members :=
  (membersOf (Members.find m "pathVariables")).map fun pair =>
    (pair.1, textProperty (defaultFor pair.2))

/-- The data of a request, if it is a list. -/
def dataIn (m : Members) : List Value :=
  match Members.find m "data" with
  | .list fields => fields
  | _ => []

/-- The type of a form field: a text, or the binary content of a file. -/
def fieldType (field : Value) : String :=
  if (Members.find (membersOf field) "type").isText "text" then "string" else "binary"

/-- The key and the property of a form field. -/
def fieldProperty (field : Value) : Scalar × Value :=
  ((Scalar.ofValue? (Members.find (membersOf field) "key")).getD .null,
    property (fieldType field) (defaultFor (Members.find (membersOf field) "value")))

/-- The properties of the form fields of a request. -/
def fieldsIn (m : Members) : Members :=
  (Entries.ofList ((dataIn m).map fieldProperty)).map fun field => (Json.nameOf field.1, field.2)

/-- What is imported of a request. -/
structure Operation where
  id : Option String
  name : String
  path : String
  method : String
  mode : Value
  headers : Members
  query : Members
  pathParams : Members
  fields : Members
  before : Value

/-- The id of a request, if it has one. -/
def idOf (m : Members) : Option String :=
  match Members.find m "id" with
  | .str s => some s
  | _ => none

/-- What is imported of a request with some members. -/
def operation (m : Members) : Operation where
  id := idOf m
  name := String.ofList (lettersOf (Members.find m "name"))
  path := pathOf m
  method := Unicode.lower (givenMethod m)
  mode := Members.find m "dataMode"
  headers := headersIn m
  query := queryIn m
  pathParams := variablesIn m
  fields := fieldsIn m
  before := Members.find m "preRequestScript"

/-- An operation with its parts stored as texts. -/
def Operation.endpoint (o : Operation) : Endpoint where
  id := o.id
  name := o.name
  consumes := mediaTypes o.mode
  request :=
    { path := o.path
      method := o.method
      headers := Json.stored (objectSchema o.headers)
      query := some (Json.stored (objectSchema o.query))
      pathParams := some (Json.stored (objectSchema o.pathParams))
      bodies := [[("body", .str (Json.stored (objectSchema o.fields)))]] }
  before := o.before

/-! ## Reading a request

One lemma for each part: if the part could be read, it is the one defined above. -/

theorem letters_eq_ok {v : Value} {cs : List Char} (h : v.letters = .ok cs) : cs = lettersOf v := by
  cases v with
  | str s =>
    cases h
    rfl
  | null | bool | int | float | list | obj => cases h

/-- A member that is missing is taken to be the default, and one that is no text is refused. -/
theorem textMember_eq_ok {m : Members} {name default s : String}
    (h : textMember m name default = .ok s) :
    s = match Entries.get? m name with
      | none => default
      | some v => String.ofList (lettersOf v) := by
  unfold textMember at h
  cases hget : Entries.get? m name with
  | none =>
    rw [hget] at h
    cases h
    rfl
  | some v =>
    rw [hget] at h
    obtain ⟨cs, hcs, h⟩ := Outcome.bind_eq_ok.mp h
    cases h
    rw [letters_eq_ok hcs]

/-- A field for a text, where a missing one counts as empty. -/
theorem field_text_eq_ok {m : Members} {name s : String}
    (h : Shape.field m name Shape.text "" = .fits s) :
    s = String.ofList (lettersOf (Members.find m name)) := by
  unfold Shape.field at h
  rw [Members.find]
  split at h
  · next v hget =>
    rw [hget]
    cases v with
    | str t =>
      cases h
      exact (String.ofList_toList).symm
    | null | bool | int | float | list | obj => cases h
  · next hget =>
    cases h
    rw [hget]
    rfl

/-- A field for an id, which may be missing or null. -/
theorem field_id_eq_ok {m : Members} {id : Option String}
    (h : Shape.field m "id" (Shape.optional Shape.text) none = .fits id) : id = idOf m := by
  unfold Shape.field at h
  rw [idOf, Members.find]
  split at h
  · next v hget =>
    rw [hget]
    cases v with
    | null =>
      cases h
      rfl
    | str t =>
      cases h
      rfl
    | bool | int | float | list | obj => cases h
  · next hget =>
    cases h
    rw [hget]
    rfl

/-- A text that may be missing, or another value with nothing in it. -/
theorem givenLetters_eq_ok {v : Value} {cs : List Char}
    (h : (if v.isVacant then .ok [] else v.letters) = .ok cs) : cs = lettersOf v := by
  split at h
  · next hvacant =>
    cases h
    cases v with
    | str s =>
      rw [lettersOf, String.isEmpty_iff.mp hvacant]
      rfl
    | null | bool | int | float | list | obj => rfl
  · exact letters_eq_ok h

theorem queryOf_str (s : String) : queryOf (.str s) = .ok (querySchema s.toList) := by
  unfold queryOf
  split
  · next hvacant =>
    rw [String.isEmpty_iff.mp hvacant]
    rfl
  · rfl

theorem headersOf_str (s : String) : headersOf (.str s) = .ok (headerSchema s.toList) := by
  unfold headersOf
  split
  · next hvacant =>
    rw [String.isEmpty_iff.mp hvacant]
    rfl
  · rfl

/-- The line of a request has its id, its name, its method and the two parts of its URL. -/
theorem requestLine_eq_ok {m : Members} {entry : Entry} (h : requestLine m = .ok entry) :
    entry = { id := idOf m, name := String.ofList (lettersOf (Members.find m "name")),
              request := { path := pathOf m, method := Unicode.lower (givenMethod m),
                           query := some (Json.stored (objectSchema (queryIn m))) } } := by
  unfold requestLine at h
  obtain ⟨named, hnamed, h⟩ := Outcome.bind_eq_ok.mp h
  obtain ⟨url, hurl, h⟩ := Outcome.bind_eq_ok.mp h
  obtain ⟨method, hmethod, h⟩ := Outcome.bind_eq_ok.mp h
  cases h
  have hletters : url.toList = urlOf m := by
    rw [textMember_eq_ok hurl, urlOf, Members.find]
    cases Entries.get? m "url" with
    | none => rfl
    | some v => exact String.toList_ofList
  have hgiven : method = givenMethod m := textMember_eq_ok hmethod
  -- The name and the id both have to fit; what else they are does not matter.
  cases hid : Shape.field m "id" (Shape.optional Shape.text) none with
  | misfits found =>
    rw [hid] at hnamed
    cases hname : Shape.field m "name" Shape.text "" with
    | misfits more =>
      rw [hname] at hnamed
      cases hnamed
    | fits name =>
      rw [hname] at hnamed
      cases hnamed
  | fits id =>
    rw [hid] at hnamed
    cases hname : Shape.field m "name" Shape.text "" with
    | misfits more =>
      rw [hname] at hnamed
      cases hnamed
    | fits name =>
      rw [hname] at hnamed
      cases hnamed
      rw [hletters, hgiven, field_id_eq_ok hid, field_text_eq_ok hname]
      rfl

/-- Path variables are read one by one, each with its literal value. -/
theorem pathVariables_eq_literalsIn {m given : Members} (h : pathVariables m = .ok given) :
    given = literalsIn m := by
  -- The defaults are the same whether there are variables or not.
  have hdefaults : ∀ {members : Members} {given : Members},
      members.mapM (fun pair => do return (pair.1, ← defaultOfValue pair.2)) = .ok given →
        given = members.map fun pair => (pair.1, defaultFor pair.2) := by
    intro members given h
    refine Outcome.eq_map_of_mapM (fun pair result hresult => ?_) h
    obtain ⟨default, hdefault, hresult⟩ := Outcome.bind_eq_ok.mp hresult
    cases hresult
    rw [defaultOfValue_eq_ok hdefault]
  rw [literalsIn]
  dsimp only [pathVariables] at h
  split at h
  · next hvacant =>
    have hnone : membersOf (Members.find m "pathVariables") = [] := by
      cases hgiven : Members.find m "pathVariables" with
      | obj members =>
        rw [hgiven] at hvacant
        exact List.isEmpty_iff.mp hvacant
      | null | bool | int | float | str | list => rfl
    rw [hnone]
    exact hdefaults h
  · obtain ⟨members, hobj, h⟩ := Outcome.bind_eq_ok.mp h
    rw [Value.members_eq_ok hobj]
    exact hdefaults h

theorem pathVariables_eq_ok {m given : Members} (h : pathVariables m = .ok given) :
    given.map (fun pair => (pair.1, textProperty pair.2)) = variablesIn m := by
  rw [pathVariables_eq_literalsIn h, literalsIn, List.map_map]
  rfl

/-- Headers and query are stored in the request of the line, which is otherwise kept. -/
theorem addHeaders_eq_ok {m : Members} {entry entry' : Entry}
    (h : addHeaders m entry = .ok entry') :
    entry' = { entry with
      request := entry.request.setHeaders (objectSchema (headersIn m))
      consumes := mediaTypes (Members.find m "dataMode") } := by
  unfold addHeaders at h
  obtain ⟨headers, hheaders, h⟩ := Outcome.bind_eq_ok.mp h
  cases h
  -- Headers that are missing are an empty block.
  obtain ⟨block, hblock, hheaders⟩ : ∃ block,
      (if (Members.find m "headers").isVacant then .ok [] else
        (Members.find m "headers").letters) = .ok block ∧ headers = headerSchema block := by
    dsimp only [headersOf] at hheaders
    split at hheaders
    · next hvacant =>
      cases hheaders
      exact ⟨[], if_pos hvacant, rfl⟩
    · next hgiven =>
      obtain ⟨block, hblock, hheaders⟩ := Outcome.bind_eq_ok.mp hheaders
      cases hheaders
      exact ⟨block, by rw [if_neg hgiven, hblock], rfl⟩
  rw [hheaders, givenLetters_eq_ok hblock]
  rfl

/-- A form field is an object whose key is a scalar. -/
theorem formProperty_eq_ok {field : Value} {pair : Scalar × Value}
    (h : formProperty field = .ok pair) : pair = fieldProperty field := by
  unfold formProperty at h
  obtain ⟨members, hmembers, h⟩ := Outcome.bind_eq_ok.mp h
  rw [Value.members_eq_ok hmembers]
  obtain ⟨default, hdefault, h⟩ := Outcome.bind_eq_ok.mp h
  obtain ⟨key, hkey, h⟩ := Outcome.bind_eq_ok.mp h
  cases h
  -- The key was accepted, so it is one of the values that can be keys.
  have hscalar : Scalar.ofValue? (Members.find members "key") = some key := by
    unfold Value.key at hkey
    split at hkey
    · next found hfound =>
      cases hkey
      exact hfound
    · cases hkey
  rw [defaultOfValue_eq_ok hdefault, fieldProperty, membersOf, hscalar]
  rfl

/-- The form of a request is the schema of its fields, under the keys that are written for them. -/
theorem requestBody_eq_ok {m entry : Members}
    (h : requestBody (Members.find m "data") = .ok entry) :
    entry = [("body", objectSchema (fieldsIn m))] := by
  unfold requestBody at h
  unfold fieldsIn dataIn
  cases hdata : Members.find m "data" with
  | list fields =>
    rw [hdata] at h
    obtain ⟨pairs, hpairs, h⟩ := Outcome.bind_eq_ok.mp h
    cases h
    rw [Outcome.eq_map_of_mapM (fun _ _ => formProperty_eq_ok) hpairs]
  | null | bool | int | float | str | obj =>
    rw [hdata] at h
    cases h
    rfl

/-- **What is imported of a request**, where anything is. -/
theorem operationOf_eq_ok {v : Value} {e : Endpoint} (h : operationOf v = .ok e) :
    v = .obj (membersOf v) ∧ e = (operation (membersOf v)).endpoint := by
  unfold operationOf at h
  obtain ⟨m, hm, h⟩ := Outcome.bind_eq_ok.mp h
  rw [Value.members_eq_ok hm]
  refine ⟨rfl, ?_⟩
  obtain ⟨entry, hentry, h⟩ := Outcome.bind_eq_ok.mp h
  obtain ⟨given, hgiven, h⟩ := Outcome.bind_eq_ok.mp h
  obtain ⟨headed, hheaded, h⟩ := Outcome.bind_eq_ok.mp h
  obtain ⟨body, hbody, h⟩ := Outcome.bind_eq_ok.mp h
  cases h
  rw [addHeaders_eq_ok hheaded, requestLine_eq_ok hentry, pathVariables_eq_ok hgiven,
    requestBody_eq_ok hbody]
  rfl

/-! ## The parts are read as they were stored

All parts of a request are properties, so that what was said of stored schemas holds of them. -/

/-- The query of a request, each name with a text. -/
theorem areProperties_queryIn (m : Members) : AreProperties ["string"] (queryIn m) := by
  intro name v hv
  rw [queryIn, queryProperties] at hv
  split at hv
  · cases hv
  · obtain ⟨part, _, heq⟩ := List.mem_map.mp (Entries.mem_ofList hv)
    cases heq
    exact ⟨_, List.mem_cons_self, _, isDefault_defaultOf _, rfl⟩

/-- The headers of a request, each name with a text. -/
theorem areProperties_headersIn (m : Members) : AreProperties ["string"] (headersIn m) := by
  intro name v hv
  obtain ⟨line, _, hline⟩ := List.mem_filterMap.mp (Entries.mem_ofList hv)
  rw [headerProperty?] at hline
  split at hline
  · cases hline
  · cases hline
    exact ⟨_, List.mem_cons_self, _, isDefault_defaultOf _, rfl⟩

/-- The path variables of a request, each name with a text. -/
theorem areProperties_variablesIn (m : Members) : AreProperties ["string"] (variablesIn m) := by
  intro name v hv
  obtain ⟨pair, _, heq⟩ := List.mem_map.mp hv
  cases heq
  exact ⟨_, List.mem_cons_self, _, isDefault_defaultFor _, rfl⟩

theorem mem_fieldTypes (field : Value) : fieldType field ∈ ["string", "binary"] := by
  unfold fieldType
  split
  · exact List.mem_cons_self
  · exact List.mem_cons_of_mem _ List.mem_cons_self

/-- The form fields of a request, each name with a text or a file. -/
theorem areProperties_fieldsIn (m : Members) :
    AreProperties ["string", "binary"] (fieldsIn m) := by
  intro name v hv
  obtain ⟨pair, hpair, heq⟩ := List.mem_map.mp hv
  cases heq
  obtain ⟨found, hfound, hvalue⟩ := Entries.exists_of_mem_ofList hpair
  obtain ⟨field, _, rfl⟩ := List.mem_map.mp hfound
  exact ⟨_, mem_fieldTypes field, _, isDefault_defaultFor _, hvalue⟩

/-- Operations with a method in lower case, whose parts are properties; in headers and query each
name stands once. -/
structure Operation.Tidy (o : Operation) : Prop where
  lowered : ∃ given, o.method = Unicode.lower given
  headers : AreProperties ["string"] o.headers
  headerNames : (Entries.keys o.headers).Nodup
  query : AreProperties ["string"] o.query
  queryNames : (Entries.keys o.query).Nodup
  pathParams : AreProperties ["string"] o.pathParams
  fields : AreProperties ["string", "binary"] o.fields

/-- Whatever a request says, its operation is tidy. -/
theorem operation_tidy (m : Members) : (operation m).Tidy where
  lowered := ⟨givenMethod m, rfl⟩
  headers := areProperties_headersIn m
  headerNames := Entries.nodup_keys_ofList _
  query := areProperties_queryIn m
  queryNames := by
    show (Entries.keys (queryProperties _)).Nodup
    unfold queryProperties
    split
    · exact List.nodup_nil
    · exact Entries.nodup_keys_ofList _
  pathParams := areProperties_variablesIn m
  fields := areProperties_fieldsIn m

section

variable {o : Operation} (h : o.Tidy)

include h

/-- The headers of an operation are read from their text. -/
theorem Operation.read_headers :
    o.endpoint.request.read .headers = .ok (objectSchema o.headers) := by
  have hread := Request.read_setHeaders o.endpoint.request (storable_objectSchema h.headers)
    (kind_objectSchema _)
  rwa [settled_objectSchema h.headers, Entries.ofList_of_nodup h.headerNames] at hread

/-- The query of an operation is read from its text. -/
theorem Operation.read_query :
    o.endpoint.request.read .query = .ok (objectSchema o.query) := by
  have hread := Request.read_setQuery o.endpoint.request (storable_objectSchema h.query)
    (kind_objectSchema _)
  rwa [settled_objectSchema h.query, Entries.ofList_of_nodup h.queryNames] at hread

/-- The path variables of an operation are read from their text; of several with one name only the
last is found. -/
theorem Operation.read_pathParams : o.endpoint.request.read .pathParams
    = .ok (objectSchema (Entries.ofList o.pathParams)) := by
  have hread := Request.read_setPathParams o.endpoint.request
    (storable_objectSchema h.pathParams) (kind_objectSchema _)
  rwa [settled_objectSchema h.pathParams] at hread

/-- The form fields of an operation are read from their text; of several with one name only the last
is found. -/
theorem Operation.parse_body :
    Json.parseStored (Members.find o.endpoint.request.body "body")
      = .ok (objectSchema (Entries.ofList o.fields)) := by
  show Json.parse (Json.stored (objectSchema o.fields)) = _
  rw [Json.parse_stored (storable_objectSchema h.fields) (kind_objectSchema _),
    settled_objectSchema h.fields]

end

end Ramlify.Postman
