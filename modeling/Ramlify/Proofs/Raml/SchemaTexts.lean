import Mathlib.Data.List.Forall2
import Ramlify.Proofs.Json.ReadValues
import Ramlify.Proofs.Raml.NamedParameters
import Ramlify.Proofs.Raml.ShownMethods
import Ramlify.Proofs.Schema.NormalForm

/-!
# Ramlify — schemas that are kept as texts

RAML 0.8 keeps the schemas of bodies as texts. A stored text is read and written again in the layout
of stored texts; one that refers to a schema of the same document becomes the name of that schema.

* **`showsSchema`** — what a schema is shown as, which tells the schema or names it.
* **`requestBody_shows`**, **`responsesByCode_shows`** — the bodies of requests and responses.
* **`bodies_of_methodParts`**, **`bodies_of_traitFields`** — at every place of a declaration for a
  body there is one exactly if there is a stored text for it, and it shows that text.
-/

namespace Ramlify.Text

/-! ## Parts that are taken out

References are told from names by taking out the start of a reference, wherever it stands in the
text. -/

variable {part : List Char} (replacement : List Char)

/-- A text without the part stays as it is. -/
theorem replaceFrom_of_not_infix {cs : List Char} (h : ¬ part <:+: cs) :
    replaceFrom part replacement 0 cs = cs := by
  induction cs with
  | nil => rfl
  | cons c cs ih =>
    rw [replaceFrom, if_neg fun hstart => h (List.isPrefixOf_iff_prefix.mp hstart).isInfix,
      ih fun hbehind => h (hbehind.trans (List.suffix_cons c cs).isInfix)]

/-- Characters that belong to an occurrence are passed over. -/
theorem replaceFrom_covered (covered cs : List Char) :
    replaceFrom part replacement covered.length (covered ++ cs)
      = replaceFrom part replacement 0 cs := by
  induction covered with
  | nil => rfl
  | cons c covered ih => rw [List.cons_append, List.length_cons, replaceFrom, ih]

/-- The part at the beginning of a text is replaced, and the search goes on behind it. -/
theorem replaceFrom_append (hpart : part ≠ []) (cs : List Char) :
    replaceFrom part replacement 0 (part ++ cs)
      = replacement ++ replaceFrom part replacement 0 cs := by
  obtain ⟨c, more, rfl⟩ := List.exists_cons_of_ne_nil hpart
  have hstart : (c :: more).isPrefixOf (c :: (more ++ cs)) = true :=
    List.isPrefixOf_iff_prefix.mpr (List.prefix_append (c :: more) cs)
  rw [List.cons_append, replaceFrom, if_pos hstart, List.length_cons, Nat.add_sub_cancel,
    replaceFrom_covered]

end Ramlify.Text

namespace Ramlify.Raml

open Json (FloatFree)

/-! ## What a schema is shown as

A schema that refers to another one of the same document is shown as the name of that one; any other
schema is shown as its text. -/

/-- A text whose value can be stored as a schema: no text, and without floating-point numbers. -/
def IsSchemaText (text : String) : Prop :=
  ∃ v, Json.parse text = .ok v ∧ v.kind ≠ .str ∧ FloatFree v

/-- A schema that is a reference to the schema of a name in the same document. -/
def RefersTo (schema : Value) (name : String) : Prop :=
  ∃ members, schema = .obj members
    ∧ Entries.get? members "$ref" = some (.str (Schema.localReference ++ name))

theorem RefersTo.unique {schema : Value} {name other : String} (h : RefersTo schema name)
    (hother : RefersTo schema other) : other = name := by
  obtain ⟨members, rfl, hget⟩ := h
  obtain ⟨found, hobj, hother⟩ := hother
  cases hobj
  rw [hget, Option.some.injEq, Value.str.injEq, ← String.toList_inj, String.toList_append,
    String.toList_append] at hother
  exact String.toList_inj.mp (List.append_cancel_left hother).symm

/-- What a schema is shown as: the name that it refers to, without the starts of references that are
within the name, and otherwise a text that is read as the schema. -/
structure ShowsSchema (schema : Value) (shown : String) : Prop where
  cleared : ∀ name, RefersTo schema name → shown = Text.replaceAll Schema.localReference "" name
  named : ∀ name, RefersTo schema name →
    ¬ Schema.localReference.toList <:+: name.toList → shown = name
  text : (∀ name, ¬ RefersTo schema name) → Json.parse shown = .ok schema

/-- Taking the start of a reference away leaves the name, as far as it has none itself. -/
theorem replaceAll_localReference (name : String) :
    Text.replaceAll Schema.localReference "" (Schema.localReference ++ name)
      = Text.replaceAll Schema.localReference "" name := by
  have hpart : Schema.localReference.toList ≠ [] := by decide
  rw [Text.replaceAll, String.toList_append, Text.replaceFrom_append _ hpart]
  rfl

/-- A text without the part stays as it is. -/
theorem replaceAll_of_not_infix {part : String} (replacement : String) {s : String}
    (h : ¬ part.toList <:+: s.toList) : Text.replaceAll part replacement s = s := by
  rw [Text.replaceAll, Text.replaceFrom_of_not_infix _ h, String.ofList_toList]

/-- The name of a schema is found exactly where the schema refers to one. -/
theorem schemaName?_eq_ok {schema : Value} {found : Option String}
    (h : Version.schemaName? schema = .ok found) :
    (∃ name, RefersTo schema name
        ∧ found = some (Text.replaceAll Schema.localReference "" name))
      ∨ (∀ name, ¬ RefersTo schema name) ∧ found = none := by
  cases schema with
  | null | bool | int | float | str | list =>
    cases h
    refine Or.inr ⟨?_, rfl⟩
    rintro name ⟨members, hobj, _⟩
    cases hobj
  | obj members =>
    unfold Version.schemaName? at h
    dsimp only at h
    split at h
    · next reference hread =>
      split at h
      · next hstart =>
        cases h
        obtain ⟨rest, hrest⟩ := String.startsWith_string_iff.mp hstart
        have hname : reference = Schema.localReference ++ String.ofList rest := by
          rw [← String.toList_inj, String.toList_append, String.toList_ofList, hrest]
        refine Or.inl ⟨String.ofList rest, ⟨members, rfl, ?_⟩, ?_⟩
        · rw [← hname]
          cases hget : Entries.get? members "$ref" with
          | some v =>
            rw [hget] at hread
            exact congrArg some hread
          | none =>
            -- The empty text, which stands for a missing reference, has no start.
            rw [hget] at hread
            cases hread
            exact absurd hstart (by decide)
        · rw [hname, replaceAll_localReference]
      · next hother =>
        cases h
        refine Or.inr ⟨?_, rfl⟩
        rintro name ⟨found, hobj, hget⟩
        cases hobj
        rw [hget] at hread
        cases hread
        exact hother (by simp [String.startsWith_string_iff])
    · cases h

/-- **What a schema is shown as.** -/
theorem showsSchema {text : String} {schema : Value} {name : Option String}
    (hread : Json.parse text = .ok schema) (hkind : schema.kind ≠ .str) (hfree : FloatFree schema)
    (hname : Version.schemaName? schema = .ok name) :
    ShowsSchema schema (name.getD (Json.stored schema)) := by
  rcases schemaName?_eq_ok hname with ⟨target, hrefers, rfl⟩ | ⟨hnone, rfl⟩
  · refine ⟨fun other hother => ?_, fun other hother hplain => ?_, fun hnone => ?_⟩
    · rw [hrefers.unique hother, Option.getD_some]
    · rw [hrefers.unique hother] at hplain ⊢
      exact replaceAll_of_not_infix "" hplain
    · exact absurd hrefers (hnone target)
  · refine ⟨fun other hother => absurd hother (hnone other),
      fun other hother _ => absurd hother (hnone other), fun _ => ?_⟩
    exact Json.parse_stored_of_parse hread hkind hfree

/-! ## Bodies

A body shows one schema, under a name of its own, and may have an example beside it. -/

/-- A body that shows the schema of a stored text. -/
def Shows (text : String) (body : Value) : Prop :=
  ∃ schema fields shown, Json.parse text = .ok schema ∧ body = .obj fields
    ∧ Entries.get? fields "schema" = some (.str shown) ∧ ShowsSchema schema shown

/-- The text that a value is, if it is one and not the empty one. -/
def storedText? : Value → Option String
  | .str s => if s.isEmpty then none else some s
  | _ => none

/-- What is stored is the text, and not the empty one. -/
theorem storedText?_str {s text : String} (h : storedText? (.str s) = some text) :
    s = text ∧ s.isEmpty = false := by
  unfold storedText? at h
  dsimp only at h
  split at h
  · cases h
  · next hgiven => exact ⟨Option.some.inj h, Bool.eq_false_iff.mpr hgiven⟩

theorem storedText?_of_isVacant {v : Value} (h : v.isVacant = true) : storedText? v = none := by
  cases v with
  | str s => exact if_pos h
  | null | bool | int | float | list | obj => rfl

/-- **What a body is**: nothing without a stored schema, and else what the schema is shown as, with
the example if there is one. -/
theorem body_eq_ok {entry : Members} {body : Value} (h : Version.v08.body entry = .ok body) :
    (Members.find entry "body").isVacant = true ∧ body = .obj []
      ∨ ∃ text schema name more, storedText? (Members.find entry "body") = some text
          ∧ Json.parse text = .ok schema ∧ Version.schemaName? schema = .ok name
          ∧ body = .obj (("schema", .str (name.getD (Json.stored schema))) :: more)
          ∧ ∀ member ∈ more, member.1 = "example" := by
  unfold Version.body at h
  dsimp only at h
  split at h
  · next hvacant =>
    cases h
    exact Or.inl ⟨hvacant, rfl⟩
  · next hgiven =>
    obtain ⟨schema, hschema, h⟩ := Outcome.bind_eq_ok.mp h
    obtain ⟨name, hname, h⟩ := Outcome.bind_eq_ok.mp h
    -- A schema is read from a text only; a value of any other kind is refused.
    obtain ⟨text, htext, hread⟩ : ∃ text, storedText? (Members.find entry "body") = some text
        ∧ Json.parse text = .ok schema := by
      cases hbody : Members.find entry "body" with
      | str text =>
        rw [hbody] at hschema hgiven
        exact ⟨text, if_neg hgiven, hschema⟩
      | null | bool | int | float | list | obj =>
        rw [hbody] at hschema
        cases hschema
    refine Or.inr ⟨text, schema, name, ?_⟩
    split at h
    · cases h
      exact ⟨[], htext, hread, hname, by cases name <;> rfl, List.forall_mem_nil _⟩
    · cases h
      exact ⟨[("example", Members.find entry "example")], htext, hread, hname,
        by cases name <;> rfl, fun member hmember => by rw [List.mem_singleton.mp hmember]⟩

/-- **There are no lists of required properties in a body**, so marking the others changes
nothing. -/
theorem spreadRequired_body {entry : Members} {body : Value}
    (h : Version.v08.body entry = .ok body) : Schema.spreadRequired body = body := by
  -- Neither of the two members that the pass looks for is among those of a body.
  have hkept : ∀ (required : List Value) (m : Members),
      (∀ member ∈ m, member.1 ≠ "required" ∧ member.1 ≠ "properties") →
        Schema.spreadMembers required m = m := by
    intro required m hm
    induction m with
    | nil => rfl
    | cons member rest ih =>
      obtain ⟨name, v⟩ := member
      obtain ⟨⟨hrequired, hproperties⟩, hrest⟩ := List.forall_mem_cons.mp hm
      have hlist : Schema.isRequiredList name v = false := by
        cases v with
        | list => exact beq_false_of_ne hrequired
        | null | bool | int | float | str | obj => rfl
      rw [Schema.spreadMembers, hlist, if_neg (by decide), if_neg hproperties, ih hrest]
  rcases body_eq_ok h with ⟨-, rfl⟩ | ⟨_, _, _, more, -, -, -, rfl, hmore⟩
  · rfl
  · rw [Schema.spreadRequired, hkept]
    refine List.forall_mem_cons.mpr ⟨⟨by simp, by simp⟩, fun member hmember => ?_⟩
    rw [hmore member hmember]
    exact ⟨by simp, by simp⟩

/-- A body has a schema exactly if a text is stored for it, and shows it. -/
theorem shows_of_body {entry : Members} {body : Value} (h : Version.v08.body entry = .ok body)
    (htexts : ∀ text, storedText? (Members.find entry "body") = some text → IsSchemaText text) :
    Option.Rel Shows (storedText? (Members.find entry "body")) body.given? := by
  rcases body_eq_ok h with ⟨hvacant, rfl⟩ | ⟨text, schema, name, more, htext, hread, hname, rfl, _⟩
  · rw [storedText?_of_isVacant hvacant]
    exact .none
  · obtain ⟨v, hv, hkind, hfree⟩ := htexts text htext
    cases hread.symm.trans hv
    rw [htext]
    exact .some ⟨schema, _, _, hread, rfl, rfl, showsSchema hread hkind hfree hname⟩

/-! ## Places of bodies

A request has its body under one media type, and a response under its code and a media type. For
each of these places it is told what is stored for it and what is declared there. -/

/-- A place of a body in a declaration: that of a request in JSON, or that of a response with a
number and a media type. -/
inductive BodyPlace where
  | request
  | response (code : String) (number : Unicode.isDigits code = true) (mediaType : String)

/-- The steps that lead to a body. -/
def BodyPlace.path : BodyPlace → List Step
  | request => [.member "body", .member "application/json"]
  | response code _ mediaType =>
    [.member "responses", .member code, .member "body", .member mediaType]

/-- The response that counts under a code: the last one of those with it. -/
def lastResponse? (responses : List Response) (code : String) : Option Response :=
  responses.reverse.find? fun response => codeOf? response == some code

/-- The text that is stored for the body of a response under a code, if bodies are written in a
media type. The empty text stands for none. -/
def answeredText? (written : String) (responses : List Response) (code mediaType : String) :
    Option String :=
  if mediaType = written ∧ written.isEmpty = false then
    (lastResponse? responses code).bind fun response => storedText? (.str response.body)
  else none

end Ramlify.Raml

namespace Ramlify

open Raml

/-- The text that is stored for the body at a place of an operation, where the API has a media type
of its own. -/
def Endpoint.storedText? (e : Endpoint) (general : Value) : BodyPlace → Option String
  | .request =>
    if e.request.method ∈ bodiedMethods ∧ mediaTypeFor e.consumes general = "application/json" then
      Raml.storedText? (Members.find e.request.body "body")
    else none
  | .response code _ mediaType =>
    answeredText? (mediaTypeFor e.produces general) e.responses code mediaType

/-- The text that is stored for the body at a place of a trait. -/
def Trait.storedText? (t : Trait) (general : Value) : BodyPlace → Option String
  | .request => none
  | .response code _ mediaType =>
    answeredText? (mediaTypeFor [] general) t.responses code mediaType

end Ramlify

namespace Ramlify.Raml

/-- The first step of a path into an object. -/
theorem at?_member (m : Members) (name : String) (path : List Step) :
    (Value.obj m).at? (.member name :: path) = (Entries.get? m name).bind (·.at? path) := rfl

/-- An object without anything in it is left out, and nothing is found in it. -/
theorem at?_given? (m : Members) (name : String) (path : List Step) :
    (Value.obj m).given?.bind (·.at? (.member name :: path))
      = (Value.obj m).at? (.member name :: path) := by
  cases m <;> rfl

/-- Under a media type there is what is written in it. -/
theorem at?_written (written : String) (v : Value) (mediaType : String) :
    (Value.obj [(written, v)]).given?.bind (·.at? [.member mediaType])
      = if written = mediaType then some v else none := by
  rw [at?_given?, at?_member, Entries.get?_cons]
  split <;> rfl

/-- A description of a body does not change its schema. -/
theorem Shows.put {text : String} {body described : Value} (h : Shows text body) {name : String}
    {v : Value} (hname : name ≠ "schema") (hput : body.put name v = .ok described) :
    Shows text described := by
  obtain ⟨schema, fields, shown, hread, rfl, hget, hshows⟩ := h
  cases hput
  exact ⟨schema, _, shown, hread, rfl, by rw [Entries.get?_put_of_ne _ _ hname, hget], hshows⟩

/-- **The body of a request** under the media type of JSON. -/
theorem requestBody_shows {entry : Members} {mediaType : String} {body : Option Value}
    (h : requestBody .v08 entry mediaType = .ok body)
    (htexts : mediaType = "application/json" →
      ∀ text, storedText? (Members.find entry "body") = some text → IsSchemaText text) :
    Option.Rel Shows
      (if mediaType = "application/json" then storedText? (Members.find entry "body") else none)
      ((body.getD .null).given?.bind (·.at? [.member "application/json"])) := by
  -- In any media type but JSON nothing is found at the place of JSON.
  by_cases hjson : mediaType = "application/json"
  · subst hjson
    rw [if_pos rfl]
    unfold requestBody at h
    split at h
    · next hnothing =>
      cases h
      rw [String.isEmpty_eq_false_iff.mpr (by decide), Bool.or_false] at hnothing
      rw [storedText?_of_isVacant hnothing]
      exact .none
    · obtain ⟨mapped, hmapped, h⟩ := Outcome.bind_eq_ok.mp h
      obtain ⟨made, hmade, hmapped⟩ := Outcome.bind_eq_ok.mp hmapped
      cases hmapped
      have hshows := shows_of_body hmade (htexts rfl)
      rw [spreadRequired_body hmade, Option.getD_some] at h
      unfold Value.given? at hshows
      revert hshows
      generalize storedText? (Members.find entry "body") = stored
      dsimp only at h
      split at h
      · next hvacant =>
        cases h
        rw [if_pos hvacant]
        exact id
      · next hgiven =>
        rw [if_neg hgiven]
        rintro (hshows | -)
        split at h
        · cases h
          exact .some hshows
        · obtain ⟨described, hdescribed, h⟩ := Outcome.bind_eq_ok.mp h
          cases h
          exact .some (hshows.put (by decide) hdescribed)
  · rw [if_neg hjson]
    cases body with
    | none => exact .none
    | some v =>
      obtain ⟨_, inner, rfl⟩ := requestBody_eq_some h
      rw [Option.getD_some, at?_written, if_neg hjson]
      exact .none

/-- The body of a response under some media type. -/
theorem responseBody_shows {written : String} {response : Response} {body : Value}
    (h : responseBody .v08 written response = .ok body) {mediaType : String}
    (htexts : mediaType = written ∧ written.isEmpty = false →
      ∀ text, storedText? (.str response.body) = some text → IsSchemaText text) :
    Option.Rel Shows
      (if mediaType = written ∧ written.isEmpty = false then storedText? (.str response.body)
        else none)
      (body.given?.bind (·.at? [.member mediaType])) := by
  unfold responseBody at h
  split at h
  · next hempty =>
    cases h
    rw [if_neg fun hboth => Bool.false_ne_true (hboth.2.symm.trans hempty)]
    exact .none
  · next hgiven =>
    obtain ⟨made, hmade, h⟩ := Outcome.bind_eq_ok.mp h
    rw [spreadRequired_body hmade] at h
    dsimp only at h
    -- The body is written under the one media type, and found there only.
    by_cases htype : mediaType = written
    · subst htype
      have hboth : mediaType = mediaType ∧ mediaType.isEmpty = false :=
        ⟨rfl, Bool.eq_false_iff.mpr hgiven⟩
      have hshows := shows_of_body hmade (htexts hboth)
      unfold Value.given? at hshows
      rw [if_pos hboth]
      split at h
      · next hvacant =>
        cases h
        rwa [if_pos hvacant] at hshows
      · next hmember =>
        cases h
        rw [if_neg hmember] at hshows
        rwa [at?_written, if_pos rfl]
    · rw [if_neg fun hboth => htype hboth.1]
      split at h
      · cases h
        exact .none
      · cases h
        rw [at?_written, if_neg (Ne.symm htype)]
        exact .none

/-- The body of a response among its other fields. -/
theorem responseFields_shows {written : String} {response : Response} {fields : Members}
    (h : responseFields .v08 written response = .ok fields) {mediaType : String}
    (htexts : mediaType = written ∧ written.isEmpty = false →
      ∀ text, storedText? (.str response.body) = some text → IsSchemaText text) :
    Option.Rel Shows
      (if mediaType = written ∧ written.isEmpty = false then storedText? (.str response.body)
        else none)
      ((Entries.get? fields "body").bind (·.at? [.member mediaType])) := by
  unfold responseFields at h
  obtain ⟨body, hbody, h⟩ := Outcome.bind_eq_ok.mp h
  obtain ⟨headers, -, h⟩ := Outcome.bind_eq_ok.mp h
  cases h
  rw [Members.get?_putGiven_of_ne _ _ (by decide), Members.get?_putGiven_of_ne _ _ (by decide),
    Members.get?_putGiven_of_new rfl]
  exact responseBody_shows hbody htexts

/-- The last response with a code is the last one of those that have one. -/
theorem find?_coded (responses : List Response) (code : String) :
    (responses.filterMap fun response => (codeOf? response).map (·, response)).reverse.find?
        (·.1 == code)
      = (lastResponse? responses code).map (code, ·) := by
  have hcoded : ∀ response : Response,
      ((codeOf? response).map (·, response)).any (·.1 == code)
        = (codeOf? response == some code) := by
    intro response
    cases codeOf? response <;> simp
  rw [← List.filterMap_reverse, List.find?_filterMap, lastResponse?]
  simp only [hcoded]
  cases hlast : responses.reverse.find? fun response => codeOf? response == some code with
  | none => rfl
  | some response =>
    have hfound := List.find?_some hlast
    have hcode : codeOf? response = some code := beq_iff_eq.mp hfound
    rw [Option.bind_some, hcode]
    rfl

/-- **Under a code there is what the last response with it gives.** -/
theorem get?_responsesByCode {version : Version} {written : String} {responses : List Response}
    {byCode : Members} (h : responsesByCode version written responses = .ok byCode)
    (code : String) :
    Option.Rel (fun response v => ∃ fields, responseFields version written response = .ok fields
        ∧ v = .obj fields)
      (lastResponse? responses code) (Entries.get? byCode code) := by
  obtain ⟨declared, hdeclared, h⟩ := Outcome.bind_eq_ok.mp h
  cases h
  -- A declaration has the code of its response.
  have hrelated := rel_find? (p := (·.1 == code)) (q := (·.1 == code)) (fun pair d hmade => by
    obtain ⟨fields, _, hmade⟩ := Outcome.bind_eq_ok.mp hmade
    cases hmade
    rfl) (List.rel_reverse (Outcome.forall₂_of_mapM hdeclared))
  rw [find?_coded, ← Entries.get?_eq_find?] at hrelated
  rw [Entries.get?_ofList]
  generalize lastResponse? responses code = response at hrelated ⊢
  generalize Entries.get? declared.reverse code = v at hrelated ⊢
  cases response with
  | none =>
    cases v with
    | none => exact .none
    | some v => cases hrelated
  | some response =>
    cases v with
    | none => cases hrelated
    | some v =>
      cases hrelated with
      | some hmade =>
        obtain ⟨fields, hfields, hmade⟩ := Outcome.bind_eq_ok.mp hmade
        cases hmade
        exact .some ⟨fields, hfields, rfl⟩

/-- **The bodies of responses** under their codes and media types. -/
theorem responsesByCode_shows {written : String} {responses : List Response} {byCode : Members}
    (h : responsesByCode .v08 written responses = .ok byCode) {code mediaType : String}
    (htexts : ∀ text, answeredText? written responses code mediaType = some text →
      IsSchemaText text) :
    Option.Rel Shows (answeredText? written responses code mediaType)
      ((Value.obj byCode).at? [.member code, .member "body", .member mediaType]) := by
  have hcode := get?_responsesByCode h code
  rw [at?_member]
  unfold answeredText? at htexts ⊢
  revert hcode htexts
  generalize lastResponse? responses code = response
  generalize Entries.get? byCode code = v
  rintro htexts (⟨fields, hfields, rfl⟩ | -)
  · rw [Option.bind_some, Option.bind_some, at?_member]
    exact responseFields_shows hfields fun hboth text htext => htexts text (by
      rw [if_pos hboth, Option.bind_some, htext])
  · rw [Option.bind_none, ite_self]
    exact .none

/-- Bodies for which texts are stored that are those of schemas. -/
def StoresSchemas (stored? : BodyPlace → Option String) : Prop :=
  ∀ place text, stored? place = some text → IsSchemaText text

/-- What is declared shows the stored texts: at every place for a body there is one exactly if a
text is stored for it. -/
def ShowsStored (stored? : BodyPlace → Option String) (v : Value) : Prop :=
  ∀ place : BodyPlace, Option.Rel Shows (stored? place) (v.at? place.path)

/-- **The bodies of an operation.** -/
theorem bodies_of_methodParts {project : Project} {mediaType : Value} {e : Endpoint} {m : Members}
    (h : MethodParts .v08 project mediaType e m)
    (htexts : StoresSchemas (e.storedText? mediaType)) :
    ShowsStored (e.storedText? mediaType) (.obj m) := by
  intro place
  cases place with
  | request =>
    obtain ⟨body, hbody, hget⟩ := h.body
    have hrequest := htexts .request
    rw [BodyPlace.path, at?_member, hget]
    unfold Endpoint.storedText? at hrequest ⊢
    unfold operationBody at hbody
    split at hbody
    · next hmethod =>
      have hshows := requestBody_shows hbody fun hjson text htext =>
        hrequest text (by rw [if_pos ⟨hmethod, hjson⟩, htext])
      simpa only [hmethod, true_and] using hshows
    · next hmethod =>
      cases hbody
      rw [if_neg fun hboth => hmethod hboth.1]
      exact .none
  -- Annotations of responses do not have numbers for names, so the response is found under its
  -- code.
  | response code number type =>
    obtain ⟨_, responses, _, hresponses, hget⟩ := h.responses
    obtain ⟨byCode, hbyCode, hframes⟩ := operationResponses_frames hresponses
    have hcode := hframes.get? code nofun (unmarked_of_isDigits number)
    rw [BodyPlace.path, at?_member, hget, at?_given?, at?_member, hcode, ← at?_member]
    exact responsesByCode_shows hbyCode (htexts (.response code number type))

/-- **The bodies of a trait.** -/
theorem bodies_of_traitFields {mediaType : Value} {t : Trait} {fields : Members}
    (h : traitFields .v08 (mediaTypeFor [] mediaType) t = .ok fields)
    (htexts : StoresSchemas (t.storedText? mediaType)) :
    ShowsStored (t.storedText? mediaType) (.obj fields) := by
  unfold traitFields at h
  obtain ⟨query, hquery, h⟩ := Outcome.bind_eq_ok.mp h
  obtain ⟨headers, hheaders, h⟩ := Outcome.bind_eq_ok.mp h
  obtain ⟨byCode, hbyCode, h⟩ := Outcome.bind_eq_ok.mp h
  cases h
  -- Before the responses there are parameters only.
  have hnone : ∀ name ∈ ["body", "responses"], Entries.get? (query ++ headers) name = none := by
    intro name hname
    have hne : name ≠ "queryParameters" ∧ name ≠ "headers" := by
      simp only [List.mem_cons, List.not_mem_nil, or_false] at hname
      rcases hname with rfl | rfl <;> exact ⟨by decide, by decide⟩
    rw [Entries.get?_append, (traitParameters_eq_ok hquery).2 name hne.1,
      (traitParameters_eq_ok hheaders).2 name hne.2]
    rfl
  intro place
  cases place with
  | request =>
    rw [BodyPlace.path, at?_member, Members.get?_putGiven_of_ne _ _ (by decide),
      hnone _ (by simp)]
    exact .none
  | response code number type =>
    rw [BodyPlace.path, at?_member, Members.get?_putGiven_of_new (hnone _ (by simp)), at?_given?]
    exact responsesByCode_shows hbyCode (htexts (.response code number type))

end Ramlify.Raml
