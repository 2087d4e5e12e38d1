import Ramlify.Proofs.Raml.ParameterWhitelist
import Ramlify.Proofs.Raml.SchemaTexts
import Ramlify.Proofs.Raml.TraitReferences

/-!
# Ramlify — schemas are faithful

A definition in RAML 0.8 lists the schemas of its project as texts, and the bodies of requests and
responses show the schemas that are stored for them. A method may be called like a resource or like
a part of a declaration; nothing that looks like a body then is one.

* **`bodies_unread`** — no part of a declaration has bodies of its own.
* **`listed_of_definition`**, **`bodiesFrom_tree`**, **`traits_of_definition`** — where the schemas
  of a definition come from.
* **`schemas_faithful`** — a definition that was written keeps the schemas of its project.
-/

namespace Ramlify.Raml

/-! ## Looking for bodies

Bodies of requests and responses are found under `body` and `responses`, as members of
`application/json` and of status codes. Nothing else that a declaration writes has such members, so
reading them along the tree is sound. -/

/-- Fields under which nothing stands that is looked for in a body or in responses. -/
def Bodiless (fields : Members) : Prop :=
  ∀ name ∈ Entries.keys fields, name ≠ "application/json" ∧ Unicode.isDigits name = false

theorem at?_of_bodiless {fields : Members} (h : Bodiless fields) {name : String}
    (hname : name = "application/json" ∨ Unicode.isDigits name = true) (path : List Step) :
    (Value.obj fields).at? (.member name :: path) = none := by
  have hnone : Entries.get? fields name = none := by
    refine Entries.get?_eq_none_iff.mpr fun hmem => ?_
    obtain ⟨hjson, hdigits⟩ := h name hmem
    rcases hname with rfl | hnumber
    · exact hjson rfl
    · rw [hnumber] at hdigits
      cases hdigits
  rw [at?_member, hnone]
  rfl

theorem BodyPlace.path_eq (place : BodyPlace) : ∃ name ∈ ["body", "responses"], ∃ next rest,
    (next = "application/json" ∨ Unicode.isDigits next = true)
      ∧ place.path = .member name :: .member next :: rest := by
  cases place with
  | request => exact ⟨_, by simp, _, _, Or.inl rfl, rfl⟩
  | response code number mediaType => exact ⟨_, by simp, _, _, Or.inr number, rfl⟩

/-- Looking for the bodies of requests in JSON and of responses. -/
def bodies : Reading (BodyPlace × Value) where
  Finds v found := v.at? found.1.path = some found.2
  names := ["body", "responses"]
  Counts _ := True
  Inert := Bodiless
  own := by simp
  counts_parameters := trivial
  counts_resource _ := trivial
  objects := by
    rintro v ⟨place, body⟩ h
    obtain ⟨name, _, next, rest, _, hpath⟩ := place.path_eq
    rw [hpath] at h
    cases v with
    | obj members => exact ⟨members, rfl⟩
    | null | bool | int | float | str | list => cases h
  nothing := by
    rintro ⟨place, body⟩ h
    obtain ⟨name, _, next, rest, _, hpath⟩ := place.path_eq
    rw [hpath] at h
    cases h
  congr := by
    rintro m m' ⟨place, body⟩ hsame h
    obtain ⟨name, hname, next, rest, _, hpath⟩ := place.path_eq
    rw [hpath, at?_member] at h ⊢
    rwa [hsame name hname] at h
  put := by
    rintro m fields other ⟨place, body⟩ hfields h
    obtain ⟨name, hname, next, rest, hnext, hpath⟩ := place.path_eq
    rw [hpath, at?_member] at h ⊢
    by_cases hsame : other = name
    · subst hsame
      rw [Entries.get?_put_self, Option.bind_some, at?_of_bodiless hfields hnext] at h
      cases h
    · rwa [Entries.get?_put_of_ne _ _ hsame] at h

/-- The fields of a parameter are none that are looked for. -/
theorem bodiless_of_acceptParameter? {fields kept : Members}
    (h : Schema.acceptParameter? fields = some kept) : Bodiless kept := by
  have hknown : ∀ name ∈ "type" :: (Schema.commonFieldNames ++ Schema.textFieldNames
      ++ Schema.numberFieldNames), name ≠ "application/json" ∧ Unicode.isDigits name = false := by
    decide +kernel
  have hlisted := Schema.isWhitelisted_of_acceptParameter? h
  exact fun name hname => hknown name (hlisted.known name hname)

/-- **No part of a declaration has bodies of its own.** -/
theorem bodies_unread {project : Project} {mediaType : Value} {e : Endpoint} {i : Insertion}
    (h : Inserts .v08 project mediaType e i) : bodies.Unread i.method := by
  obtain ⟨a, a', hoff, hmethod⟩ := h.made
  have hnames := mem_declaredNames_of_methodOf hoff hmethod
  refine Reading.unread_of_methodParts (methodParts hmethod) ?_
    (fun _ _ => bodiless_of_acceptParameter?) (fun name _ hother => ?_) fun name hname => ?_
  · -- Neither of the two names is a media type, a status code or an annotation.
    intro name hname
    have hplain : Unmarked name := by
      simp only [bodies, List.mem_cons, List.not_mem_nil, or_false] at hname
      rcases hname with rfl | rfl <;> exact unmarked_of_head (by simp)
    have hothers : ∀ name ∈ ["body", "responses"], name ∉ "application/json" :: formTypes
        ∧ Unicode.isDigits name = false := by
      decide +kernel
    obtain ⟨htype, hdigits⟩ := hothers name hname
    exact ⟨htype, hdigits, hplain⟩
  · exact Entries.get?_eq_none_iff.mpr fun hmem => hother (hnames name hmem)
  · have hdeclared : ∀ name ∈ declaredNames,
        name ≠ "application/json" ∧ Unicode.isDigits name = false := by
      decide +kernel
    exact hdeclared name (hnames name (((Entries.erase_sublist _ _).map _).subset hname))

/-! ## The schemas of a project

A schema is listed as the text of the value that its definition is read as. RAML 0.8 takes schemas
as they are, so neither of the passes over schemas is made. -/

/-- An item that lists a schema: a text under its name, which is read as the same value as the
definition. -/
def ListsSchema (schema : NamedSchema) (item : Value) : Prop :=
  ∃ text v, item = .obj [(schema.name, .str text)] ∧ Json.parse schema.definition = .ok v
    ∧ Json.parse text = .ok v

/-- Each schema is listed under its name, in the order of the project. By induction over the schemas
along their declarations. -/
theorem listsSchemas_of_declareSchemas {schemas : List NamedSchema} {declared : Value}
    (h : Version.v08.declareSchemas schemas = .ok declared)
    (htexts : ∀ schema ∈ schemas, IsSchemaText schema.definition) :
    ∃ items, declared = .list items ∧ List.Forall₂ ListsSchema schemas items := by
  obtain ⟨items, hitems, h⟩ := Outcome.bind_eq_ok.mp h
  cases h
  refine ⟨items, rfl, ?_⟩
  have hrelated := Outcome.forall₂_of_mapM hitems
  clear h hitems
  -- Schema by schema, in the order in which they are given.
  induction hrelated with
  | nil => exact .nil
  | cons hfirst _ ih =>
    obtain ⟨htext, hrest⟩ := List.forall_mem_cons.mp htexts
    refine .cons ?_ (ih hrest)
    obtain ⟨v, hread, hfirst⟩ := Outcome.bind_eq_ok.mp hfirst
    cases hfirst
    obtain ⟨w, hw, hkind, hfree⟩ := htext
    cases hread.symm.trans hw
    exact ⟨_, _, rfl, hread, Json.parse_stored_of_parse hread hkind hfree⟩

/-! ## Projects

What is asked of a project so that its schemas can be told from the definition: they are stored as
texts which are read as values again. -/

/-- What is stored for a response is one of the texts of its project. -/
theorem isSchemaText_of_answeredText? {written code mediaType text : String}
    {responses : List Response}
    (h : ∀ response ∈ responses, response.body.isEmpty = false → IsSchemaText response.body)
    (htext : answeredText? written responses code mediaType = some text) : IsSchemaText text := by
  unfold answeredText? at htext
  split at htext
  · obtain ⟨response, hlast, hstored⟩ := Option.bind_eq_some_iff.mp htext
    have hmem : response ∈ responses := List.mem_reverse.mp (List.mem_of_find?_eq_some hlast)
    obtain ⟨rfl, hgiven⟩ := storedText?_str hstored
    exact h response hmem hgiven
  · cases htext

end Ramlify.Raml

namespace Ramlify

open Raml

/-- The media type that RAML 0.8 writes for the whole API of a project. -/
def Project.generalMediaType (project : Project) : Value :=
  Version.v08.mediaType project.environment.consumes project.environment.produces

/-- A project whose schemas, bodies of requests in JSON and bodies of responses, where they are not
empty, are texts of values other than texts and without floating-point numbers. -/
structure Project.StoresSchemas (project : Project) : Prop where
  schemas : ∀ schema ∈ project.schemas, IsSchemaText schema.definition
  requests : ∀ e ∈ project.endpoints,
    mediaTypeFor e.consumes project.generalMediaType = "application/json" →
    ∀ text, storedText? (Members.find e.request.body "body") = some text → IsSchemaText text
  responses : ∀ e ∈ project.endpoints, ∀ response ∈ e.responses,
    response.body.isEmpty = false → IsSchemaText response.body
  shared : ∀ t ∈ project.traits, ∀ response ∈ t.responses,
    response.body.isEmpty = false → IsSchemaText response.body

namespace Project.StoresSchemas

variable {project : Project} (h : project.StoresSchemas)

include h

/-- The texts of an operation of such a project. -/
theorem endpoint {e : Endpoint} (he : e ∈ project.endpoints) :
    Raml.StoresSchemas (e.storedText? project.generalMediaType) := by
  intro place text htext
  cases place with
  | request =>
    unfold Endpoint.storedText? at htext
    dsimp only at htext
    split at htext
    · next hboth => exact h.requests e he hboth.2 text htext
    · cases htext
  | response => exact isSchemaText_of_answeredText? (h.responses e he) htext

/-- The texts of a trait of such a project. -/
theorem trait {t : Trait} (ht : t ∈ project.traits) :
    Raml.StoresSchemas (t.storedText? project.generalMediaType) := by
  intro place text htext
  cases place with
  | request => cases htext
  | response => exact isSchemaText_of_answeredText? (h.shared t ht) htext

end Project.StoresSchemas

end Ramlify

namespace Ramlify.Raml

/-! ## The definition of a project

Schemas stand in three places of a definition: in its list, in the tree of resources and among the
traits. -/

theorem ShowsStored.exists_text {stored? : BodyPlace → Option String} {v body : Value}
    (h : ShowsStored stored? v) {place : BodyPlace} (hbody : v.at? place.path = some body) :
    ∃ text, stored? place = some text ∧ Shows text body := by
  have hplace := h place
  rw [hbody] at hplace
  generalize stored? place = text at hplace
  cases hplace with
  | some hshows => exact ⟨_, rfl, hshows⟩

theorem ShowsStored.exists_body {stored? : BodyPlace → Option String} {v : Value} {text : String}
    (h : ShowsStored stored? v) {place : BodyPlace} (htext : stored? place = some text) :
    ∃ body, v.at? place.path = some body ∧ Shows text body := by
  have hplace := h place
  rw [htext] at hplace
  generalize v.at? place.path = body at hplace
  cases hplace with
  | some hshows => exact ⟨_, rfl, hshows⟩

/-- The parameters of a path are moved away from the bodies of an operation. -/
theorem ShowsStored.erase {stored? : BodyPlace → Option String} {m : Members}
    (h : ShowsStored stored? (.obj m)) :
    ShowsStored stored? (.obj (Entries.erase m "uriParameters")) := by
  intro place
  have hplace := h place
  obtain ⟨name, hname, _, _, _, hpath⟩ := place.path_eq
  rw [hpath, at?_member] at hplace ⊢
  rwa [Entries.get?_erase_of_ne m]
  rintro rfl
  exact (bodies.own _ hname).2 (by simp)

/-- A definition in RAML 0.8 that keeps the schemas of a project: those that it lists, and those of
the bodies that are stored in the project. -/
structure KeepsSchemas (project : Project) (data : Members) : Prop where
  /-- All schemas are listed, in their order. -/
  listed : ∃ items, Entries.get? data "schemas" = (Value.list items).given?
    ∧ List.Forall₂ ListsSchema project.schemas items
  /-- Each body that is found under a resource is stored for an operation at its place. -/
  found : ∀ path key method (place : BodyPlace) body, path ≠ [] →
    entryAt path key (.obj data) = some method → method.at? place.path = some body →
    ∃ e ∈ project.endpoints, segmentsOf e.request.path = path ∧ e.request.method = key
      ∧ ∃ text, e.storedText? project.generalMediaType place = some text ∧ Shows text body
  /-- Each operation that is shown has all bodies that are stored for it. -/
  shown : project.MethodsLowered →
    (∀ e ∈ project.endpoints, e.request.method.startsWith "/" = false) →
    ∃ ordered,
      inDisplayOrder project.environment.resourcesOrder.docs project.endpoints = .ok ordered
      ∧ ∀ e ∈ project.endpoints, ∃ owner method,
        shownAt ordered (segmentsOf e.request.path) e.request.method = some owner
        ∧ entryAt (segmentsOf e.request.path) e.request.method (.obj data) = some method
        ∧ ShowsStored (owner.storedText? project.generalMediaType) method
  /-- Each trait has all bodies that are stored for it, and no others. -/
  traits : List.Forall₂ (fun t declared => declared.1 = t.declaredName
      ∧ ShowsStored (t.storedText? project.generalMediaType) declared.2)
    project.traits (declaredTraits .v08 data)

section

variable {project : Project} {data : Members} {mediaType : Value} {ordered : List Endpoint}
  {insertions : List Insertion} {head tree : Members}
  (h : DefinitionParts .v08 project data mediaType ordered insertions head tree)
  (hstored : project.StoresSchemas)

include h hstored

/-- **The schemas of a project are listed.** -/
theorem listed_of_definition (hpaths : ∀ e ∈ project.endpoints, '/' ∈ e.request.path.toList) :
    ∃ items, Entries.get? data "schemas" = (Value.list items).given?
      ∧ List.Forall₂ ListsSchema project.schemas items := by
  obtain ⟨declared, hdeclared, hhead⟩ := h.schemas
  obtain ⟨items, rfl, hitems⟩ := listsSchemas_of_declareSchemas hdeclared hstored.schemas
  refine ⟨items, ?_, hitems⟩
  have hdata := h.toMadeOf.get? "schemas" (unmarked_of_head (by simp)) (by decide)
  have htree : Entries.get? tree "schemas" = none := get?_tree_top h hpaths (by simp)
  rw [Version.schemasName] at hhead
  rw [hdata, htree, Option.none_or, hhead]
  generalize project.schemas = schemas at hitems ⊢
  cases hitems with
  | nil => rfl
  | cons => rfl

/-- **All bodies in the tree** are stored for an operation at their place. -/
theorem bodiesFrom_tree :
    bodies.FoundFrom (fun path key found => ∃ e ∈ project.endpoints,
        segmentsOf e.request.path = path ∧ e.request.method = key
          ∧ ∃ text, e.storedText? mediaType found.1 = some text ∧ Shows text found.2)
      (.obj tree) := by
  refine h.foundFrom (fun _ _ hinserts => bodies_unread hinserts)
    fun e he m hmethod found hfound => ?_
  have htexts := hstored.endpoint he
  rw [Project.generalMediaType, ← h.mediaType_eq] at htexts
  exact (bodies_of_methodParts hmethod htexts).exists_text hfound

/-- **The bodies of traits.** -/
theorem traits_of_definition (hpaths : ∀ e ∈ project.endpoints, '/' ∈ e.request.path.toList) :
    List.Forall₂ (fun t declared => declared.1 = t.declaredName
        ∧ ShowsStored (t.storedText? mediaType) declared.2)
      project.traits (declaredTraits .v08 data) := by
  obtain ⟨declared, hdeclares, hdeclared⟩ := declaredTraits_eq h hpaths
  rw [hdeclared]
  refine List.Forall₂.imp (fun t d hboth => ?_)
    ((List.forall₂_and_left (p := fun t => t ∈ project.traits) _ _).mpr ⟨fun _ => id, hdeclares⟩)
  obtain ⟨ht, fields, hfields, rfl⟩ := hboth
  have htexts := hstored.trait ht
  rw [Project.generalMediaType, ← h.mediaType_eq] at htexts
  exact ⟨rfl, bodies_of_traitFields hfields htexts⟩

theorem keepsSchemas (hpaths : ∀ e ∈ project.endpoints, '/' ∈ e.request.path.toList) :
    KeepsSchemas project data := by
  obtain rfl : mediaType = project.generalMediaType := h.mediaType_eq
  refine ⟨listed_of_definition h hstored hpaths, ?_, fun hmethods hslashes => ?_,
    traits_of_definition h hstored hpaths⟩
  · intro path key method place body hpath hmethod hbody
    rw [h.toMadeOf.entryAt_eq h.toFrames hpath] at hmethod
    obtain ⟨resource, hresource, hget⟩ := Option.bind_eq_some_iff.mp hmethod
    exact (bodiesFrom_tree h hstored path resource hresource).origin key method (place, body)
      trivial hget hbody
  · refine ⟨ordered, h.shown, fun e he => ?_⟩
    -- What stands at the place of an operation is the declaration of the operation that is shown
    -- there.
    have hentry := entryAt_shown h hmethods hslashes (segmentsOf_ne_nil (hpaths e he))
      (isMethodKey_method h hmethods hslashes he)
    obtain ⟨owner, howner⟩ := exists_shownAt ((mem_inDisplayOrder h.shown).mpr he)
    rw [howner] at hentry
    generalize entryAt (segmentsOf e.request.path) e.request.method (.obj data) = found at hentry ⊢
    cases hentry with
    | some hmethod =>
      obtain ⟨declared, hmethod, rfl⟩ := hmethod
      have hmem := (mem_inDisplayOrder h.shown).mp (mem_of_shownAt howner).1
      exact ⟨owner, _, howner, rfl,
        (bodies_of_methodParts hmethod (hstored.endpoint hmem)).erase⟩

end

/-- **Schemas are faithful in RAML 0.8.** If all paths have a slash, an exporter that wrote a
project whose schemas can be stored holds a definition that keeps them: each is listed as a text, or
shown in a body as a text, that is read as the same value; a schema in a body that refers to one of
the same document is shown as the name of that one, from which all starts of references are taken
out. Marking required properties does not change bodies. -/
theorem schemas_faithful {exporter : Exporter} {project : Project} {form text : String}
    (hversion : exporter.version = .v08)
    (h : ((exporter.load project).write form).2 = .ok text)
    (hpaths : ∀ e ∈ project.endpoints, '/' ∈ e.request.path.toList)
    (hstored : project.StoresSchemas) :
    (∃ data, ((exporter.load project).write form).1.data = some data ∧ KeepsSchemas project data)
      ∧ ∀ entry body, Version.v08.body entry = .ok body → Schema.spreadRequired body = body := by
  obtain ⟨data, hdefinition, hdata⟩ := Exporter.exists_definition h
  rw [hversion] at hdefinition
  obtain ⟨mediaType, ordered, insertions, head, tree, hparts⟩ := definitionParts hdefinition
  exact ⟨⟨data, hdata, keepsSchemas hparts hstored hpaths⟩, fun _ _ => spreadRequired_body⟩

/-! ### A reference, and one with the start of a reference in its name

An operation with both kinds of body: one refers to a schema by its name, the other holds a schema
itself. In the second project the name that is referred to has `#/definitions/` in it once more. -/

/-- The schema that refers to the schema of a name. -/
def schemaReference (name : String) : Value :=
  .obj [("$ref", .str (Schema.localReference ++ name))]

/-- A schema that refers to nothing. -/
def amountsSchema : Value := .obj [("type", .str "array"), ("minItems", .int 1)]

/-- An operation whose request refers to a schema by its name, while its response has one itself. -/
def referringEndpoint (name : String) : Endpoint where
  consumes := ["application/json"]
  produces := ["application/json"]
  responses := [{ codes := ["200"], body := Json.stored amountsSchema }]
  request := { path := "/pets", method := "post"
               bodies := [[("body", .str (Json.stored (schemaReference name)))]] }

def referringProject (name : String) : Project where
  endpoints := [referringEndpoint name]
  schemas := [{ name := "amounts", definition := Json.stored amountsSchema }]

theorem refersTo_schemaReference (name : String) : RefersTo (schemaReference name) name :=
  ⟨_, rfl, rfl⟩

theorem faithful_schemaReference (name : String) : Json.Faithful (schemaReference name) :=
  ⟨⟨trivial, trivial⟩, ⟨List.nodup_singleton _, trivial, trivial⟩,
    by simp [schemaReference, Value.kind]⟩

theorem faithful_amountsSchema : Json.Faithful amountsSchema :=
  have hdigits : (Nat.toDigits 10 1).length ≤ Json.maxDigits := by decide
  ⟨⟨trivial, hdigits, trivial⟩, ⟨by decide, trivial, trivial, trivial⟩, by decide⟩

/-- A value that was stored is found as it was stored. -/
theorem storedText?_stored {v : Value} (h : Json.Faithful v) :
    storedText? (.str (Json.stored v)) = some (Json.stored v) := by
  rw [storedText?, Request.isEmpty_stored h.storable h.kind, if_neg Bool.false_ne_true]

/-- The schemas of the project are texts of values. -/
theorem storesSchemas_referring (name : String) : (referringProject name).StoresSchemas := by
  have htext : ∀ {v}, Json.Faithful v → Json.FloatFree v → IsSchemaText (Json.stored v) :=
    fun hfaithful hfree => ⟨_, Json.parse_stored_of_faithful hfaithful, hfaithful.kind, hfree⟩
  have hamounts := htext faithful_amountsSchema ⟨trivial, trivial, trivial⟩
  refine ⟨List.forall_mem_singleton.mpr hamounts,
    List.forall_mem_singleton.mpr fun _ text hbody => ?_,
    List.forall_mem_singleton.mpr (List.forall_mem_singleton.mpr fun _ => hamounts), nofun⟩
  obtain ⟨rfl, -⟩ := storedText?_str hbody
  exact htext (faithful_schemaReference name) ⟨trivial, trivial⟩

/-- The only path of the project has a slash. -/
theorem paths_referring (name : String) :
    ∀ e ∈ (referringProject name).endpoints, '/' ∈ e.request.path.toList :=
  List.forall_mem_singleton.mpr (by decide : '/' ∈ "/pets".toList)

/-- The declaration of the operation has the bodies that are stored for it. -/
theorem shown_referring {name : String} {data : Members}
    (h : KeepsSchemas (referringProject name) data) :
    ∃ method, entryAt ["pets"] "post" (.obj data) = some method
      ∧ ShowsStored ((referringEndpoint name).storedText? (.str "")) method := by
  have hlowered : (referringEndpoint name).request.Lowered := by
    refine ⟨"post", ?_⟩
    show "post" = Unicode.lower "post"
    decide +kernel
  have hslash : (referringEndpoint name).request.method.startsWith "/" = false := by
    show "post".startsWith "/" = false
    simp
  obtain ⟨ordered, hordered, hshown⟩ := h.shown (List.forall_mem_singleton.mpr hlowered)
    (List.forall_mem_singleton.mpr hslash)
  obtain ⟨owner, method, howner, hmethod, hbodies⟩ :=
    hshown (referringEndpoint name) List.mem_cons_self
  -- There is only one operation, so it is the one that is shown.
  obtain rfl : owner = referringEndpoint name :=
    List.mem_singleton.mp ((mem_inDisplayOrder hordered).mp (mem_of_shownAt howner).1)
  have hsegments : segmentsOf "/pets" = ["pets"] := by decide +kernel
  rw [← hsegments]
  exact ⟨method, hmethod, hbodies⟩

/-- The body of the request shows the reference. -/
theorem request_referring {name : String} {method : Value}
    (h : ShowsStored ((referringEndpoint name).storedText? (.str "")) method) :
    ∃ fields shown, method.at? BodyPlace.request.path = some (.obj fields)
      ∧ Entries.get? fields "schema" = some (.str shown)
      ∧ ShowsSchema (schemaReference name) shown := by
  have htext : (referringEndpoint name).storedText? (.str "") .request
      = some (Json.stored (schemaReference name)) := by
    have hbody : Members.find (referringEndpoint name).request.body "body"
        = .str (Json.stored (schemaReference name)) := rfl
    have hmethod : (referringEndpoint name).request.method ∈ bodiedMethods := by
      show "post" ∈ bodiedMethods
      decide
    unfold Endpoint.storedText?
    dsimp only
    rw [hbody, if_pos ⟨hmethod, rfl⟩, storedText?_stored (faithful_schemaReference name)]
  obtain ⟨body, hbody, schema, fields, shown, hread, rfl, hget, hshows⟩ := h.exists_body htext
  cases (Json.parse_stored_of_faithful (faithful_schemaReference name)).symm.trans hread
  exact ⟨fields, shown, hbody, hget, hshows⟩

/-- The body of the response shows its schema as a text. -/
theorem response_referring {name : String} {method : Value}
    (h : ShowsStored ((referringEndpoint name).storedText? (.str "")) method) :
    ∃ fields shown,
      method.at? (BodyPlace.response "200" (by decide +kernel) "application/json").path
        = some (.obj fields)
      ∧ Entries.get? fields "schema" = some (.str shown)
      ∧ Json.parse shown = .ok amountsSchema := by
  have hnumber : Unicode.isDigits "200" = true := by decide +kernel
  have htext : (referringEndpoint name).storedText? (.str "")
      (.response "200" hnumber "application/json") = some (Json.stored amountsSchema) := by
    have hlast : lastResponse? (referringEndpoint name).responses "200"
        = some { codes := ["200"], body := Json.stored amountsSchema } := by
      refine List.find?_cons_of_pos ?_
      show (codeOf? _ == some "200") = true
      rw [codeOf?]
      decide +kernel
    have hwritten : (mediaTypeFor (referringEndpoint name).produces (.str "")).isEmpty = false := by
      show "application/json".isEmpty = false
      decide
    unfold Endpoint.storedText? answeredText?
    dsimp only
    rw [hlast, if_pos ⟨rfl, hwritten⟩, Option.bind_some, storedText?_stored faithful_amountsSchema]
  obtain ⟨body, hbody, schema, fields, shown, hread, rfl, hget, hshows⟩ := h.exists_body htext
  cases (Json.parse_stored_of_faithful faithful_amountsSchema).symm.trans hread
  refine ⟨fields, shown, hbody, hget, hshows.text ?_⟩
  -- The schema of the response refers to nothing, so it is shown as a text.
  rintro other ⟨members, hobj, href⟩
  cases hobj
  cases href

/-- The schema is listed, the request shows its name, and the response shows it as a text. -/
theorem schemas_faithful_referring :
    ∃ data method listed requested answered shown,
      (((Exporter.mk .v08 none none).load (referringProject "amounts")).write "yaml").1.data
        = some data
      ∧ Entries.get? data "schemas" = some (.list [.obj [("amounts", .str listed)]])
      ∧ Json.parse listed = .ok amountsSchema
      ∧ entryAt ["pets"] "post" (.obj data) = some method
      ∧ method.at? BodyPlace.request.path = some (.obj requested)
      ∧ Entries.get? requested "schema" = some (.str "amounts")
      ∧ method.at? (BodyPlace.response "200" (by decide +kernel) "application/json").path
        = some (.obj answered)
      ∧ Entries.get? answered "schema" = some (.str shown)
      ∧ Json.parse shown = .ok amountsSchema := by
  obtain ⟨text, hwritten⟩ : ∃ text, (((Exporter.mk .v08 none none).load
      (referringProject "amounts")).write "yaml").2 = .ok text :=
    Outcome.exists_of_isSome (by decide +kernel)
  obtain ⟨⟨data, hdata, hkeeps⟩, _⟩ := schemas_faithful rfl hwritten (paths_referring "amounts")
    (storesSchemas_referring "amounts")
  obtain ⟨items, hget, hitems⟩ := hkeeps.listed
  obtain ⟨method, hmethod, hbodies⟩ := shown_referring hkeeps
  obtain ⟨requested, name, hrequest, hname, hshows⟩ := request_referring hbodies
  obtain ⟨answered, shown, hresponse, hschema, hshown⟩ := response_referring hbodies
  -- The name has no start of a reference in it, so the body shows just this name.
  obtain rfl := hshows.named "amounts" (refersTo_schemaReference "amounts") (by decide +kernel)
  cases hitems with
  | cons hfirst hrest =>
    cases hrest
    obtain ⟨listed, v, rfl, hdefinition, hread⟩ := hfirst
    cases (Json.parse_stored_of_faithful faithful_amountsSchema).symm.trans hdefinition
    exact ⟨data, method, listed, requested, answered, shown, hdata, hget, hread, hmethod, hrequest,
      hname, hresponse, hschema, hshown⟩

/-- **A reference within a name.** The name of the schema has the start of a reference in it, so
what the body of the request shows is neither this name nor a text that is read as the schema. -/
theorem name_cleared :
    (∃ text, (((Exporter.mk .v08 none none).load
        (referringProject "a#/definitions/b")).write "yaml").2 = .ok text)
      ∧ (∀ e ∈ (referringProject "a#/definitions/b").endpoints, '/' ∈ e.request.path.toList)
      ∧ (referringProject "a#/definitions/b").StoresSchemas
      ∧ Json.parse (Json.stored (schemaReference "a#/definitions/b"))
        = .ok (schemaReference "a#/definitions/b")
      ∧ (∀ name, RefersTo (schemaReference "a#/definitions/b") name →
        Schema.localReference.toList <:+: name.toList)
      ∧ ∃ data method fields,
        (((Exporter.mk .v08 none none).load
          (referringProject "a#/definitions/b")).write "yaml").1.data = some data
        ∧ entryAt ["pets"] "post" (.obj data) = some method
        ∧ method.at? BodyPlace.request.path = some (.obj fields)
        ∧ Entries.get? fields "schema" = some (.str "ab")
        ∧ Json.parse "ab" ≠ .ok (schemaReference "a#/definitions/b") := by
  have hpaths := paths_referring "a#/definitions/b"
  have hstored := storesSchemas_referring "a#/definitions/b"
  obtain ⟨text, hwritten⟩ : ∃ text, (((Exporter.mk .v08 none none).load
      (referringProject "a#/definitions/b")).write "yaml").2 = .ok text :=
    Outcome.exists_of_isSome (by decide +kernel)
  obtain ⟨data, hdefinition, hdata⟩ := Exporter.exists_definition hwritten
  obtain ⟨_, _, _, _, _, hparts⟩ := definitionParts hdefinition
  obtain ⟨method, hmethod, hbodies⟩ := shown_referring (keepsSchemas hparts hstored hpaths)
  obtain ⟨fields, shown, hrequest, hschema, hshows⟩ := request_referring hbodies
  have hcleared : Text.replaceAll Schema.localReference "" "a#/definitions/b" = "ab" := by
    decide +kernel
  -- All that looks like the start of a reference was taken out of the name.
  obtain rfl := (hshows.cleared _ (refersTo_schemaReference _)).trans hcleared
  refine ⟨⟨text, hwritten⟩, hpaths, hstored,
    Json.parse_stored_of_faithful (faithful_schemaReference _), ?_, data, method, fields, hdata,
    hmethod, hrequest, hschema, fun hread => ?_⟩
  · intro name hname
    rw [(refersTo_schemaReference _).unique hname]
    decide +kernel
  · have hnone : (Json.parse "ab").toOption.isSome = false := by decide +kernel
    rw [hread] at hnone
    cases hnone

end Ramlify.Raml
