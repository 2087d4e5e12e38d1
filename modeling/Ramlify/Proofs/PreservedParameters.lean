import Ramlify.Proofs.ImportThenExport
import Ramlify.Proofs.Raml.DefinitionParts

/-!
# Ramlify — no parameter is lost on the way

The parameters of a request are parsed, stored as JSON texts, read again, merged with those of other
requests, read once more, searched for references, picked and checked before they stand in a
definition. They arrive as they were given, whatever they are called.

* **`TextFields.fieldsIn_eq`** — the form fields of a request, read from the request itself.
* **`entryAt_importedDefinition`** — below the head a definition reads as its tree of resources.
* **`parameters_preserved`** — the headers, the query and the form of a request, as they are found
  in the exported definition.
-/

namespace Ramlify.Postman

/-! ## Form fields

Form fields are found by their keys, which can be any scalars. Where all are texts, the fields of a
request can be told from the request itself. -/

/-- The key of a form field. -/
def keyIn (field : Value) : String :=
  String.ofList (lettersOf (Members.find (membersOf field) "key"))

/-- The default of a form field. -/
def valueIn (field : Value) : Value := defaultFor (Members.find (membersOf field) "value")

/-- The form fields of a request under their keys: of several with one key the last one counts, at
the place of the first. -/
def latestFields (m : Members) : List (String × Value) :=
  Entries.latest ((dataIn m).map fun field => (keyIn field, field))

/-- Form fields whose keys are texts. -/
def TextFields (m : Members) : Prop :=
  ∀ field ∈ dataIn m, ∃ key, Members.find (membersOf field) "key" = .str key

/-- Texts are equal as keys only if they are equal. -/
theorem beq_scalar_str (a b : String) : (Scalar.str a == Scalar.str b) = (a == b) := by
  show decide (Scalar.str a = Scalar.str b) = decide (a = b)
  simp only [Scalar.str.injEq]

/-- **The properties of the form fields** of a request, each key once. -/
theorem TextFields.fieldsIn_eq {m : Members} (h : TextFields m) :
    fieldsIn m = (latestFields m).map fun pair =>
      (pair.1, property (fieldType pair.2) (valueIn pair.2)) := by
  -- The keys become names at the end, but equal keys are found before that.
  have hpairs : (dataIn m).map fieldProperty
      = ((dataIn m).map fun field => (keyIn field, field)).map
          (Prod.map Scalar.str fun field => property (fieldType field) (valueIn field)) := by
    rw [List.map_map]
    refine List.map_congr_left fun field hfield => ?_
    obtain ⟨key, hkey⟩ := h field hfield
    have htext : keyIn field = key := by
      rw [keyIn, hkey]
      exact String.ofList_toList
    show fieldProperty field
      = (Scalar.str (keyIn field), property (fieldType field) (valueIn field))
    rw [fieldProperty, hkey, htext]
    rfl
  unfold fieldsIn latestFields
  rw [hpairs, Entries.ofList_map beq_scalar_str, Entries.ofList_eq_latest, List.map_map]
  rfl

/-- Fields with texts for keys are kept under different names. -/
theorem TextFields.nodup_fieldsIn {m : Members} (h : TextFields m) :
    (Entries.keys (fieldsIn m)).Nodup := by
  rw [h.fieldsIn_eq, Entries.keys, List.map_map]
  show (Entries.keys (latestFields m)).Nodup
  rw [latestFields, ← Entries.ofList_eq_latest]
  exact Entries.nodup_keys_ofList _

end Ramlify.Postman

namespace Ramlify.Raml

open Postman

/-! ## What a method declares

A property with a default becomes a parameter that shows it. The form is shown under a media type,
if the request has one for its data and its method sends a body. -/

/-- The type of the parameter of a form field: a text or a file. -/
def declaredType (field : Value) : String :=
  if (Members.find (membersOf field) "type").isText "text" then "string" else "file"

/-- The form parameters of a request, by the keys of its form fields. -/
def declaredForm (version : Version) (m : Members) : Value :=
  .obj [(formName version, .obj ((latestFields m).map fun pair =>
    (pair.1, .obj (formFields version (declaredType pair.2) (valueIn pair.2)))))]

/-- The parameters of some requests together: of several with one name the last one counts, at the
place of the first. -/
def together (parameters : Members → Members) (requests : List Members) : Members :=
  Entries.latest (requests.flatMap parameters)

/-- An operation with the headers and the query of all of some requests. -/
structure MergesParameters (requests : List Members) (e : Endpoint) : Prop where
  headers : e.request.read .headers = .ok (objectSchema (together headersIn requests))
  query : e.request.read .query = .ok (objectSchema (together queryIn requests))

/-- A method that declares the headers and the query of all of some requests as texts, and the form
of the first one. -/
structure DeclaresParameters (version : Version) (first : Members) (more : List Members)
    (method : Members) : Prop where
  headers : Entries.get? method "headers"
    = partOf (textParameters (together headersIn (first :: more)))
  query : Entries.get? method "queryParameters"
    = partOf (textParameters (together queryIn (first :: more)))
  form : ∀ type, Unicode.lower (givenMethod first) ∈ bodiedMethods →
    formTypeOf? (Members.find first "dataMode") = some type → TextFields first →
    Entries.get? method "body" = some (.obj [(type, declaredForm version first)])

theorem formType_fieldProperty (field default : Value) :
    formType (property (fieldType field) default) = declaredType field := by
  unfold declaredType fieldType
  split <;> rfl

/-- The form of a request is declared with one parameter for each key. -/
theorem formBody_fieldsIn (version : Version) {m : Members} (h : TextFields m) :
    formBody version (Entries.ofList (fieldsIn m)) = declaredForm version m := by
  rw [Entries.ofList_of_nodup h.nodup_fieldsIn, h.fieldsIn_eq, formBody, List.map_map]
  refine congrArg (fun fields => Value.obj [(formName version, .obj fields)])
    (List.map_congr_left fun pair _ => ?_)
  show (pair.1, Value.obj (formFieldsOf version (property (fieldType pair.2) (valueIn pair.2)))) = _
  rw [formFieldsOf, formType_fieldProperty, defaultIn_property]

/-- The headers of a merged operation are those of all its requests together. -/
theorem merged_headers (first : Members) (more : List Members) :
    (merged (operation first) (more.map operation)).headers
      = together headersIn (first :: more) := by
  have hjoined : (operation first :: more.map operation).flatMap Operation.headers
      = (first :: more).flatMap headersIn := by
    rw [← List.map_cons, List.flatMap_map]
    rfl
  rw [together, ← Entries.ofList_eq_latest, ← hjoined]
  rfl

/-- The query of a merged operation is that of all its requests together. -/
theorem merged_query (first : Members) (more : List Members) :
    (merged (operation first) (more.map operation)).query = together queryIn (first :: more) := by
  have hjoined : (operation first :: more.map operation).flatMap Operation.query
      = (first :: more).flatMap queryIn := by
    rw [← List.map_cons, List.flatMap_map]
    rfl
  rw [together, ← Entries.ofList_eq_latest, ← hjoined]
  rfl

/-- The headers and the query are read again from the texts that a merged operation keeps. -/
theorem mergesParameters_merged {first : Members} {more : List Members}
    (h : (merged (operation first) (more.map operation)).Tidy) :
    MergesParameters (first :: more)
      (merged (operation first) (more.map operation)).endpoint where
  headers := by rw [Operation.read_headers h, merged_headers]
  query := by rw [Operation.read_query h, merged_query]

/-- The declaration of an imported operation, also without the parameters of its path. -/
theorem declares_importedMethod (version : Version) (first : Members) (more : List Members) :
    DeclaresParameters version first more (Entries.erase
      (importedMethod version (merged (operation first) (more.map operation)))
      "uriParameters") where
  headers := by
    rw [Entries.get?_erase_of_ne _ (by decide), get?_headers_importedMethod, merged_headers]
  query := by
    rw [Entries.get?_erase_of_ne _ (by decide), get?_queryParameters_importedMethod, merged_query]
  form := by
    intro type hmethod htype htext
    rw [Entries.get?_erase_of_ne _ (by decide), get?_body_importedMethod, importedBody]
    show (if Unicode.lower (givenMethod first) ∈ bodiedMethods then
      (formTypeOf? (Members.find first "dataMode")).map fun type =>
        Value.obj [(type, formBody version (Entries.ofList (fieldsIn first)))] else none) = _
    rw [if_pos hmethod, htype, formBody_fieldsIn version htext]
    rfl

/-! ## Where a method is found

The tree of resources is put behind the head of the definition, whose names do not begin with a
slash and are not those of methods. -/

/-- The names at the head of a definition differ from each other. -/
theorem nodup_importedHead (version : Version) (name description : String) :
    (Entries.keys (importedHead version name description)).Nodup := by
  unfold importedHead
  split
  · show ["title", "version", "mediaType"].Nodup
    decide
  · cases version with
    | v10 =>
      show ["title", "version", "mediaType", "description"].Nodup
      decide
    | v08 =>
      show ["title", "version", "mediaType", "documentation"].Nodup
      decide

/-- A member of the tree is found in the definition unless there is nothing in it. -/
theorem get?_importedDefinition {version : Version} {name description : String}
    {tree : Members} (hnodup : (Entries.keys tree).Nodup) {member : String} {v : Value}
    (h : Entries.get? tree member = some v) :
    Entries.get? (importedDefinition version name description tree) member
      = if v.isVacant then none else some v := by
  have hput : Entries.get? (Entries.putAll (importedHead version name description) tree) member
      = some v := by
    rw [Entries.get?_putAll, ← Entries.get?_ofList, Entries.ofList_of_nodup hnodup, h]
    rfl
  rw [importedDefinition, Entries.get?_filter
    (Entries.nodup_keys_putAll (nodup_importedHead version name description) tree), hput]
  cases hvacant : v.isVacant with
  | true => simp [Option.filter, hvacant]
  | false => simp [Option.filter, hvacant]

/-- **Below the head a definition reads as its tree of resources.** -/
theorem entryAt_importedDefinition {version : Version} {name description : String}
    {tree : Members} (hnodup : (Entries.keys tree).Nodup) {path : List String} (hpath : path ≠ [])
    {key : String} {v : Value} (h : entryAt path key (.obj tree) = some v) :
    entryAt path key (.obj (importedDefinition version name description tree)) = some v := by
  cases path with
  | nil => exact absurd rfl hpath
  | cons segment path =>
    obtain ⟨resource, hresource, hkey⟩ := Option.bind_eq_some_iff.mp h
    rw [resourceAt_cons] at hresource
    obtain ⟨child, hchild, hbelow⟩ := Option.bind_eq_some_iff.mp hresource
    -- What a path leads into is not vacant, so it was kept.
    have hgiven : child.isVacant = false :=
      isVacant_of_entryAt (Option.bind_eq_some_iff.mpr ⟨resource, hbelow, hkey⟩)
    have hkept : Entries.get? (importedDefinition version name description tree)
        (resourceKey segment) = some child := by
      rw [get?_importedDefinition hnodup hchild, hgiven]
      rfl
    refine Option.bind_eq_some_iff.mpr ⟨resource, ?_, hkey⟩
    rw [resourceAt_cons, hkept]
    exact hbelow

/-- The declaration of an operation can be inserted, if its method is no name of a resource. -/
theorem insertionOf_admissible (version : Version) {o : Operation} (h : o.Tidy)
    (hmethod : o.method.startsWith "/" = false) : (insertionOf version o).Admissible where
  key := ⟨hmethod, method_ne_label h⟩
  parameters := by
    have hfind : Members.find (insertionOf version o).method "uriParameters"
        = (partOf (textParameters (Entries.ofList o.pathParams))).getD .null :=
      congrArg (·.getD .null) (get?_uriParameters_importedMethod version o)
    unfold partOf at hfind
    split at hfind
    · exact Or.inl hfind
    · refine Or.inr ?_
      rw [Insertion.parameters, hfind]
      rfl

/-- Operations whose methods are no names of resources give a tree that can be read as a store. -/
theorem exists_treeFor (version : Version) {operations : List Operation}
    (htidy : ∀ o ∈ operations, o.Tidy)
    (hmethods : ∀ o ∈ operations, o.method.startsWith "/" = false) :
    ∃ tree, insertAll (.obj []) (operations.map (insertionOf version)) = .ok (.obj tree)
      ∧ TreeFor (operations.map (insertionOf version)) [] (.obj tree) := by
  have hadmissible : ∀ i ∈ operations.map (insertionOf version), i.Admissible := by
    intro i hi
    obtain ⟨o, ho, rfl⟩ := List.mem_map.mp hi
    exact insertionOf_admissible version (htidy o ho) (hmethods o ho)
  obtain ⟨tree, hrun, htree⟩ := insertAll_treeFor treeFor_nil _ hadmissible
  exact ⟨tree, hrun, by rwa [List.nil_append] at htree⟩

/-- The last operation of a place is found there in the tree. -/
theorem entryAt_tree {version : Version} {before after : List Operation} {o : Operation}
    {tree : Members}
    (htree : TreeFor ((before ++ o :: after).map (insertionOf version)) [] (.obj tree))
    (htidy : o.Tidy) (hmethod : o.method.startsWith "/" = false)
    (hlast : ∀ later ∈ after, ¬ (segmentsOf later.path = segmentsOf o.path
      ∧ later.method = o.method)) :
    entryAt (segmentsOf o.path) o.method (.obj tree)
      = some (.obj (Entries.erase (importedMethod version o) "uriParameters")) := by
  have hfree : ∀ i ∈ after.map (insertionOf version),
      ¬ (i.segments = (insertionOf version o).segments ∧ i.key = (insertionOf version o).key) := by
    intro i hi
    obtain ⟨later, hlater, rfl⟩ := List.mem_map.mp hi
    exact hlast later hlater
  rw [htree.entryAt_eq _ ⟨hmethod, method_ne_label htidy⟩, List.map_append, List.map_cons]
  exact lastMethod_of_last hfree

/-- An operation is found in the definition if none after it takes its place. -/
theorem entryAt_definition (version : Version) {name description : String}
    {before after : List Operation} {o : Operation} {saved : List SavedEntry}
    {groups : List Members} (htidy : ∀ other ∈ before ++ o :: after, other.Tidy)
    (hmethods : ∀ other ∈ before ++ o :: after, other.method.startsWith "/" = false)
    (hslash : '/' ∈ o.path.toList)
    (hlast : ∀ later ∈ after, later.method = o.method →
      Text.after? '/' later.path.toList ≠ Text.after? '/' o.path.toList) :
    ∃ data, definition version (imported name description (before ++ o :: after) saved groups)
        = .ok data
      ∧ entryAt (segmentsOf o.path) o.method (.obj data)
        = some (.obj (Entries.erase (importedMethod version o) "uriParameters")) := by
  obtain ⟨tree, hrun, htree⟩ := exists_treeFor version htidy hmethods
  have hself : o ∈ before ++ o :: after := List.mem_append_right _ List.mem_cons_self
  -- A later operation at the same place would have the same text after its first slash.
  have hentry := entryAt_tree htree (htidy o hself) (hmethods o hself)
    fun later hlater hsame => hlast later hlater hsame.2 (segmentsOf_eq_iff.mp hsame.1)
  refine ⟨_, definition_imported htidy hrun, ?_⟩
  exact entryAt_importedDefinition (htree.resource [] tree rfl).nodup (segmentsOf_ne_nil hslash)
    hentry

/-- The methods of imported operations begin with a slash only if those of requests do. -/
theorem method_of_mem_operationsOf {requests : List Members}
    (h : ∀ m ∈ requests, (givenMethod m).startsWith "/" = false) :
    ∀ o ∈ operationsOf requests, o.method.startsWith "/" = false := by
  intro o ho
  obtain ⟨first, more, hsources, hmerged⟩ := exists_sources ho
  have hfirst : first ∈ sourcesOf requests o.path o.method := by
    rw [hsources]
    exact List.mem_cons_self
  refine Bool.eq_false_iff.mpr fun hslash => ?_
  rw [hmerged] at hslash
  have hgiven := Unicode.startsWith_slash_of_lower hslash
  rw [h first (List.mem_of_mem_filter hfirst)] at hgiven
  cases hgiven

/-- **No parameter is lost on the way** from a request to the exported definition. -/
theorem parameters_preserved {importer : Importer} {text : String} {p : Project}
    (h : importer.Imports text p)
    (hmethods : ∀ m ∈ requestsIn (importer.load (.str text)).1.data,
      (givenMethod m).startsWith "/" = false)
    {before after : List Endpoint} {e : Endpoint} (hendpoints : p.endpoints = before ++ e :: after)
    (hslash : '/' ∈ e.request.path.toList)
    (hlast : ∀ later ∈ after, later.request.method = e.request.method →
      Text.after? '/' later.request.path.toList ≠ Text.after? '/' e.request.path.toList)
    (exporter : Exporter) :
    ∃ data method first more,
      ((exporter.load p).write "yaml").1.data = some data
        ∧ entryAt (segmentsOf e.request.path) e.request.method (.obj data) = some (.obj method)
        ∧ sourcesOf (requestsIn (importer.load (.str text)).1.data) e.request.path
            e.request.method = first :: more
        ∧ MergesParameters (first :: more) e
        ∧ DeclaresParameters exporter.version first more method := by
  obtain ⟨name, description, saved, groups, rfl⟩ := project_eq_ok h.collection
  -- The operations before, at and behind the endpoint in question.
  obtain ⟨done, rest, hsplit, rfl, hrest⟩ := List.map_eq_append_iff.mp hendpoints
  obtain ⟨o, later, rfl, rfl, rfl⟩ := List.map_eq_cons_iff.mp hrest
  have htidy : ∀ other ∈ done ++ o :: later, other.Tidy := by
    rw [← hsplit]
    exact operationsOf_tidy
  have hslashes : ∀ other ∈ done ++ o :: later, other.method.startsWith "/" = false := by
    rw [← hsplit]
    exact method_of_mem_operationsOf hmethods
  have hself : o ∈ done ++ o :: later := List.mem_append_right _ List.mem_cons_self
  obtain ⟨first, more, hsources, hmerged⟩ := exists_sources (hsplit ▸ hself)
  have hfree : ∀ other ∈ later, other.method = o.method →
      Text.after? '/' other.path.toList ≠ Text.after? '/' o.path.toList :=
    fun other hother => hlast other.endpoint (List.mem_map_of_mem hother)
  obtain ⟨data, hdata, hentry⟩ :=
    entryAt_definition exporter.version htidy hslashes hslash hfree
  -- The method that is found is the declaration of the operation, and the operation is merged from
  -- the requests of its path and method.
  refine ⟨data, _, first, more, ?_, hentry, hsources, ?_, ?_⟩
  · unfold Exporter.write Exporter.load
    dsimp only
    rw [hsplit, hdata]
  · have htidy := htidy o hself
    rw [hmerged] at htidy ⊢
    exact mergesParameters_merged htidy
  · rw [hmerged]
    exact declares_importedMethod exporter.version first more

/-! ### Parameters called like the words of schemas

Headers, fields and query of these requests are called `$ref`, `type`, `title` and `ref`, all of
which mean something in a schema or in the description of a parameter. They arrive nevertheless. -/

/-- A request whose parameters are called like the words of schemas. -/
def namesakeRequest : Members :=
  [("name", .str "Add"), ("url", .str "api/pets?title=Tom"), ("method", .str "POST"),
   ("headers", .str "$ref: a\ntype: b"), ("dataMode", .str "params"),
   ("data", .list
     [.obj [("key", .str "ref"), ("type", .str "file")],
      .obj [("key", .str "title"), ("type", .str "file")],
      .obj [("key", .str "ref"), ("type", .str "text"), ("value", .str "x")]])]

/-- Another request of the same path and method. -/
def repeatedRequest : Members :=
  [("name", .str "Add again"), ("url", .str "api/pets"), ("method", .str "post"),
   ("headers", .str "type: c\nAccept:")]

def namesakeCollection : Value :=
  .obj [("name", .str "Namesakes"),
    ("requests", .list [.obj namesakeRequest, .obj repeatedRequest])]

/-- What the two requests become. -/
def namesakeOperation : Operation :=
  merged (operation namesakeRequest) [operation repeatedRequest]

/-- The text of the collection is read as the collection. -/
theorem parse_namesakeCollection :
    Json.parse (Json.stored namesakeCollection) = .ok namesakeCollection := by
  have hstorable : Json.Storable namesakeCollection := by
    simp [namesakeCollection, namesakeRequest, repeatedRequest, Json.Storable, Json.StorableItems,
      Json.StorableMembers]
  have hsettled : Json.settled namesakeCollection = namesakeCollection := rfl
  rw [Json.parse_stored hstorable (by rintro ⟨⟩), hsettled]

set_option maxRecDepth 100000 in
/-- The collection becomes a project with one operation. -/
theorem project_namesakeCollection : ∃ saved, Postman.project namesakeCollection
    = .ok (imported "Namesakes" "" [namesakeOperation] saved []) := by
  have hoperations : List.mapM operationOf [.obj namesakeRequest, .obj repeatedRequest]
      = .ok (([namesakeRequest, repeatedRequest].map operation).map Operation.endpoint) := rfl
  have hmerged : operationsOf [namesakeRequest, repeatedRequest] = [namesakeOperation] := rfl
  obtain ⟨saved, hsaved⟩ : ∃ saved,
      List.mapM savedEntryOf [.obj namesakeRequest, .obj repeatedRequest] = .ok saved := ⟨_, rfl⟩
  -- One step of the import after the other. The saved entries are not looked at.
  refine ⟨saved, ?_⟩
  refine Outcome.bind_eq_ok.mpr ⟨_, rfl, ?_⟩
  refine Outcome.bind_eq_ok.mpr ⟨("Namesakes", ""), rfl, ?_⟩
  refine Outcome.bind_eq_ok.mpr ⟨_, rfl, ?_⟩
  refine Outcome.bind_eq_ok.mpr ⟨_, hoperations, ?_⟩
  refine Outcome.bind_eq_ok.mpr ⟨_, mergeAll_eq _, ?_⟩
  refine Outcome.bind_eq_ok.mpr ⟨saved, hsaved, ?_⟩
  rw [hmerged]
  rfl

set_option maxRecDepth 100000 in
/-- The method of the two requests is declared with all their headers, their query and the form of
the first. -/
theorem parameters_preserved_namesakes :
    ∃ p e, Importer.Imports {} (Json.stored namesakeCollection) p ∧ p.endpoints = [] ++ e :: []
      ∧ ∃ data method,
        (((Exporter.mk .v10 none none).load p).write "yaml").1.data = some data
          ∧ entryAt ["pets"] "post" (.obj data) = some (.obj method)
          ∧ Entries.get? method "headers" = some (.obj
            [("$ref", .obj [("type", .str "string"), ("default", .str "a")]),
             ("type", .obj [("type", .str "string"), ("default", .str "c")]),
             ("Accept", .obj [("type", .str "string")])])
          ∧ Entries.get? method "body" = some (.obj [("multipart/form-data", .obj
            [("properties", .obj
              [("ref", .obj [("type", .str "string"), ("default", .str "x"),
                ("required", .bool false)]),
               ("title", .obj [("type", .str "file"), ("required", .bool false)])])])]) := by
  obtain ⟨saved, hproject⟩ := project_namesakeCollection
  have hload := Importer.load_eq parse_namesakeCollection {}
  have himports : Importer.Imports {} (Json.stored namesakeCollection)
      (imported "Namesakes" "" [namesakeOperation] saved []) :=
    Importer.imports_of_parse parse_namesakeCollection hproject {}
  -- What the importer holds are the two requests that were written.
  have hrequests : requestsIn (Importer.load {} (.str (Json.stored namesakeCollection))).1.data
      = [namesakeRequest, repeatedRequest] := by
    rw [hload]
    rfl
  have hmethods : ∀ m ∈ [namesakeRequest, repeatedRequest],
      (givenMethod m).startsWith "/" = false := by
    have hfirst : givenMethod namesakeRequest = "POST" := rfl
    have hsecond : givenMethod repeatedRequest = "post" := rfl
    intro m hm
    simp only [List.mem_cons, List.not_mem_nil, or_false] at hm
    rcases hm with rfl | rfl
    · simp [hfirst]
    · simp [hsecond]
  have hpath : namesakeOperation.endpoint.request.path = "api/pets" := rfl
  have hmethod : namesakeOperation.endpoint.request.method = "post" := rfl
  have hslash : '/' ∈ namesakeOperation.endpoint.request.path.toList := by
    rw [hpath]
    decide
  have hendpoints : (imported "Namesakes" "" [namesakeOperation] saved []).endpoints
      = [] ++ namesakeOperation.endpoint :: [] := rfl
  -- Each form field has a text for its key, so that the form has the fields as they are named.
  have hkeys : TextFields namesakeRequest := by
    have hdata : dataIn namesakeRequest = [.obj [("key", .str "ref"), ("type", .str "file")],
        .obj [("key", .str "title"), ("type", .str "file")],
        .obj [("key", .str "ref"), ("type", .str "text"), ("value", .str "x")]] := rfl
    intro field hfield
    rw [hdata] at hfield
    simp only [List.mem_cons, List.not_mem_nil, or_false] at hfield
    rcases hfield with rfl | rfl | rfl <;> exact ⟨_, rfl⟩
  obtain ⟨data, method, first, more, hdata, hentry, hsources, _, hdeclares⟩ :=
    parameters_preserved himports (by rw [hrequests]; exact hmethods) hendpoints hslash
      (List.forall_mem_nil _) (Exporter.mk .v10 none none)
  rw [hrequests, hpath, hmethod] at hsources
  rw [hpath, hmethod] at hentry
  have hboth : sourcesOf [namesakeRequest, repeatedRequest] "api/pets" "post"
      = [namesakeRequest, repeatedRequest] := rfl
  obtain ⟨rfl, rfl⟩ : namesakeRequest = first ∧ [repeatedRequest] = more :=
    List.cons.inj (hboth.symm.trans hsources)
  exact ⟨_, _, himports, hendpoints, data, method, hdata, hentry, hdeclares.headers,
    hdeclares.form _ (by decide) rfl hkeys⟩

end Ramlify.Raml
