import Ramlify.Proofs.Raml.Frames

/-!
# Ramlify — the parts of the declaration of an operation

A declaration has a member for each part of an operation that there is something of. Each of these
is written by one step, and no other step writes it (`Frames`), so it can be read off the finished
declaration.

* **`introduces`**, **`exchanges`** — the members that the first two steps write.
* **`methodParts`** — the members of a declaration, part by part.
-/

namespace Ramlify.Raml

/-! ## What introduces an operation

The name is shown as one of two members, by version, and the other three members do not depend on
it. -/

/-- The members that tell what an operation is. -/
def introducedNames : List String := ["displayName", "description", "protocols", "is"]

/-- Showing a name writes one of two members. -/
theorem frames_addDisplayName (version : Version) (m : Members) (name : Value) :
    Frames ["displayName", "description"] m (version.addDisplayName m name) := by
  unfold Version.addDisplayName
  split
  · exact Frames.refl _ m
  · split
    · exact Frames.put (by decide) m name
    · split
      · exact Frames.refl _ m
      · exact Frames.put (by decide) m name

/-- Members whose name and description are texts. -/
def NamedByTexts (m : Members) : Prop :=
  ∀ name ∈ ["displayName", "description"], ∀ v, Entries.get? m name = some v → ∃ s, v = .str s

namespace NamedByTexts

variable {m m' : Members}

theorem put (h : NamedByTexts m) (name s : String) :
    NamedByTexts (Entries.put m name (.str s)) := by
  intro other hother v hv
  rw [Entries.get?_put] at hv
  split at hv
  · exact ⟨s, (Option.some.inj hv).symm⟩
  · exact h other hother v hv

theorem putGiven (h : NamedByTexts m) (name s : String) :
    NamedByTexts (Members.putGiven m name (.str s)) := by
  unfold Members.putGiven
  split
  · exact h
  · exact h.put name s

/-- The name of an operation is shown as a text. -/
theorem addDisplayName (h : NamedByTexts m) (version : Version) (s : String) :
    NamedByTexts (version.addDisplayName m (.str s)) := by
  unfold Version.addDisplayName
  split
  · exact h
  · split
    · exact h.put _ s
    · split
      · exact h
      · exact h.put _ s

/-- A step that writes neither of the two members keeps what they are. -/
theorem frame (h : NamedByTexts m) {names : List String} (hframes : Frames names m m')
    (hnames : ∀ name ∈ ["displayName", "description"], name ∉ names) : NamedByTexts m' := by
  intro name hname v hv
  have hplain : Unmarked name := by
    simp only [List.mem_cons, List.not_mem_nil, or_false] at hname
    rcases hname with rfl | rfl <;> exact unmarked_of_head (by simp)
  rw [hframes.get? name (hnames name hname) hplain] at hv
  exact h name hname v hv

end NamedByTexts

/-- The first members of a declaration. -/
structure Introduces (traits : List Trait) (e : Endpoint) (m : Members) : Prop
    extends Frames introducedNames [] m where
  named : NamedByTexts m
  protocols : Entries.get? m "protocols" = (Value.texts (protocolNames e.protocols)).given?
  traits : Entries.get? m "is" = (Value.texts (traitNames traits e.traits)).given?

/-- What introduces an operation, member by member. -/
theorem introduces {version : Version} {traits : List Trait} {e : Endpoint} {a a' : Annotations}
    {m : Members} (h : introduction version traits e a = .ok (m, a')) : Introduces traits e m := by
  unfold introduction at h
  obtain ⟨extended, a₁, hextended, h⟩ := Pass.bind_eq_ok.mp h
  obtain ⟨summed, a₂, hsummed, h⟩ := Pass.bind_eq_ok.mp h
  cases h
  -- Up to the summary only the names and annotations have been written.
  have hnamed : Frames ["displayName", "description"] [] summed :=
    (((Frames.annotateAll hextended).trans (frames_addDisplayName version extended _)).trans
      (Frames.putGiven (by decide) _ _)).trans (Frames.annotateGiven hsummed)
  have htexts : NamedByTexts summed := by
    have hempty : NamedByTexts [] := fun name _ v hv => nomatch hv
    have hextends : Frames [] [] extended := Frames.annotateAll hextended
    have hsums : Frames [] _ summed := Frames.annotateGiven hsummed
    exact (((hempty.frame hextends (by decide)).addDisplayName version _).putGiven _ _).frame
      hsums (by decide)
  have hprotocols : Entries.get? summed "protocols" = none :=
    hnamed.get? _ (by decide) (unmarked_of_head (by simp))
  have htraits : Entries.get? summed "is" = none :=
    hnamed.get? _ (by decide) (unmarked_of_head (by simp))
  refine { toFrames := ?_, named := ?_, protocols := ?_, traits := ?_ }
  · exact ((hnamed.mono (by decide)).trans (Frames.putGiven (by decide) _ _)).trans
      (Frames.putGiven (by decide) _ _)
  · have hput : ∀ name ∈ ["protocols", "is"], ∀ before v,
        Frames ["protocols", "is"] before (Members.putGiven before name v) :=
      fun name hname before v => Frames.putGiven hname before v
    exact htexts.frame ((hput _ (by decide) _ _).trans (hput _ (by decide) _ _)) (by decide)
  · rw [Members.get?_putGiven_of_ne _ _ (by decide), Members.get?_putGiven_of_new hprotocols]
  · refine Members.get?_putGiven_of_new ?_ _
    rw [Members.get?_putGiven_of_ne _ _ (by decide), htraits]

/-! ## What is sent and answered

The five members are written one after another, each from something that is read of the operation.
They are new, so each is found as it was put. -/

/-- The members that tell what is sent and what is answered. -/
def exchangedNames : List String :=
  ["body", "headers", "responses", "queryParameters", "uriParameters"]

/-- The members of a declaration for what is sent and what is answered. -/
structure Exchanges (version : Version) (mediaType : Value) (e : Endpoint) (m : Members) :
    Prop where
  body : ∃ body, operationBody version mediaType e = .ok body
    ∧ Entries.get? m "body" = (body.getD .null).given?
  headers : ∃ schema headers, e.request.read .headers = .ok schema
    ∧ namedParameters schema = .ok headers
    ∧ Entries.get? m "headers" = (headers.getD .null).given?
  responses : ∃ a responses a', operationResponses version mediaType e a = .ok (responses, a')
    ∧ Entries.get? m "responses" = (Value.obj responses).given?
  query : ∃ schema a query a', e.request.read .query = .ok schema
    ∧ addressParameters schema a = .ok (query, a')
    ∧ Entries.get? m "queryParameters" = (query.getD .null).given?
  path : ∃ schema a path a', e.request.read .pathParams = .ok schema
    ∧ addressParameters schema a = .ok (path, a')
    ∧ Entries.get? m "uriParameters" = (path.getD .null).given?

/-- **All that adding what is sent and answered can do**, where it does not fail. -/
theorem addExchange_eq_ok {version : Version} {mediaType : Value} {e : Endpoint}
    {a a' : Annotations} {m result : Members}
    (h : addExchange version mediaType e m a = .ok (result, a')) :
    ∃ body headersSchema headers responses a₁ querySchema query a₂ pathSchema path,
      operationBody version mediaType e = .ok body
        ∧ e.request.read .headers = .ok headersSchema
        ∧ namedParameters headersSchema = .ok headers
        ∧ operationResponses version mediaType e a = .ok (responses, a₁)
        ∧ e.request.read .query = .ok querySchema
        ∧ addressParameters querySchema a₁ = .ok (query, a₂)
        ∧ e.request.read .pathParams = .ok pathSchema
        ∧ addressParameters pathSchema a₂ = .ok (path, a')
        ∧ result = ((((m.putGiven "body" (body.getD .null)).putGiven "headers"
            (headers.getD .null)).putGiven "responses" (.obj responses)).putGiven
            "queryParameters" (query.getD .null)).putGiven "uriParameters" (path.getD .null) := by
  -- The parts in the order in which they are made; those that are no passes leave the record of
  -- annotations alone.
  unfold addExchange at h
  obtain ⟨body, a₁, hlift, h₁⟩ := Pass.bind_eq_ok.mp h
  obtain ⟨hbody, rfl⟩ := Pass.lift_eq_ok.mp hlift
  obtain ⟨headersSchema, a₂, hlift, h₂⟩ := Pass.bind_eq_ok.mp h₁
  obtain ⟨hheadersSchema, rfl⟩ := Pass.lift_eq_ok.mp hlift
  obtain ⟨headers, a₃, hlift, h₃⟩ := Pass.bind_eq_ok.mp h₂
  obtain ⟨hheaders, rfl⟩ := Pass.lift_eq_ok.mp hlift
  obtain ⟨responses, a₄, hresponses, h₄⟩ := Pass.bind_eq_ok.mp h₃
  obtain ⟨querySchema, a₅, hlift, h₅⟩ := Pass.bind_eq_ok.mp h₄
  obtain ⟨hquerySchema, rfl⟩ := Pass.lift_eq_ok.mp hlift
  obtain ⟨query, a₆, hquery, h₆⟩ := Pass.bind_eq_ok.mp h₅
  obtain ⟨pathSchema, a₇, hlift, h₇⟩ := Pass.bind_eq_ok.mp h₆
  obtain ⟨hpathSchema, rfl⟩ := Pass.lift_eq_ok.mp hlift
  obtain ⟨path, a₈, hpath, h₈⟩ := Pass.bind_eq_ok.mp h₇
  cases h₈
  exact ⟨body, headersSchema, headers, responses, _, querySchema, query, _, pathSchema, path, hbody,
    hheadersSchema, hheaders, hresponses, hquerySchema, hquery, hpathSchema, hpath, rfl⟩

/-- The five members are found, and no other one is written. -/
theorem exchanges {version : Version} {mediaType : Value} {e : Endpoint} {a a' : Annotations}
    {m result : Members} (h : addExchange version mediaType e m a = .ok (result, a'))
    (hnew : ∀ name ∈ exchangedNames, Entries.get? m name = none) :
    Exchanges version mediaType e result ∧ Frames exchangedNames m result := by
  obtain ⟨body, _, headers, responses, _, _, query, _, _, path, hbody, hheadersSchema, hheaders,
    hresponses, hquerySchema, hquery, hpathSchema, hpath, rfl⟩ := addExchange_eq_ok h
  refine ⟨⟨⟨body, hbody, ?_⟩, ⟨_, _, hheadersSchema, hheaders, ?_⟩, ⟨_, _, _, hresponses, ?_⟩,
    ⟨_, _, _, _, hquerySchema, hquery, ?_⟩, ⟨_, _, _, _, hpathSchema, hpath, ?_⟩⟩, ?_⟩
  -- Each part is new where it is put, and none is put again.
  · iterate 4 rw [Members.get?_putGiven_of_ne _ _ (by decide)]
    exact Members.get?_putGiven_of_new (hnew _ (by decide)) _
  · iterate 3 rw [Members.get?_putGiven_of_ne _ _ (by decide)]
    refine Members.get?_putGiven_of_new ?_ _
    rw [Members.get?_putGiven_of_ne _ _ (by decide)]
    exact hnew _ (by decide)
  · iterate 2 rw [Members.get?_putGiven_of_ne _ _ (by decide)]
    refine Members.get?_putGiven_of_new ?_ _
    iterate 2 rw [Members.get?_putGiven_of_ne _ _ (by decide)]
    exact hnew _ (by decide)
  · rw [Members.get?_putGiven_of_ne _ _ (by decide)]
    refine Members.get?_putGiven_of_new ?_ _
    iterate 3 rw [Members.get?_putGiven_of_ne _ _ (by decide)]
    exact hnew _ (by decide)
  · refine Members.get?_putGiven_of_new ?_ _
    iterate 4 rw [Members.get?_putGiven_of_ne _ _ (by decide)]
    exact hnew _ (by decide)
  · iterate 4 refine Frames.trans ?_ (Frames.putGiven (by decide) _ _)
    exact Frames.putGiven (by decide) _ _

theorem isDigits_of_responsesByCode {version : Version} {mediaType : String}
    {responses : List Response} {byCode : Members}
    (h : responsesByCode version mediaType responses = .ok byCode) :
    ∀ code ∈ Entries.keys byCode, Unicode.isDigits code = true := by
  obtain ⟨declared, hdeclared, h⟩ := Outcome.bind_eq_ok.mp h
  cases h
  intro code hmem
  obtain ⟨member, hmember, rfl⟩ := List.mem_map.mp hmem
  obtain ⟨pair, hpair, hmade⟩ := Outcome.mem_of_mapM hdeclared (Entries.mem_ofList hmember)
  obtain ⟨fields, _, hfields⟩ := Outcome.bind_eq_ok.mp hmade
  cases hfields
  obtain ⟨response, _, hcoded⟩ := List.mem_filterMap.mp hpair
  obtain ⟨code, hcode, rfl⟩ := Option.map_eq_some_iff.mp hcoded
  exact (Option.filter_eq_some_iff.mp hcode).2

/-- The responses of an operation by their codes, to which only annotations are added. -/
theorem operationResponses_frames {version : Version} {mediaType : Value} {e : Endpoint}
    {a a' : Annotations} {responses : Members}
    (h : operationResponses version mediaType e a = .ok (responses, a')) :
    ∃ byCode, responsesByCode version (mediaTypeFor e.produces mediaType) e.responses = .ok byCode
      ∧ Frames [] byCode responses := by
  unfold operationResponses at h
  obtain ⟨byCode, a₁, hlift, hrest⟩ := Pass.bind_eq_ok.mp h
  obtain ⟨hbyCode, rfl⟩ := Pass.lift_eq_ok.mp hlift
  refine ⟨byCode, hbyCode, ?_⟩
  split at hrest
  · next hempty =>
    cases hrest
    rw [List.isEmpty_iff.mp hempty]
    exact Frames.refl _ _
  · exact Frames.annotateAll hrest

/-! ## The declaration

Security and annotations come last. They write no member of those before. -/

/-- All that closes a declaration are annotations. -/
theorem frames_addClosing {e : Endpoint} {a a' : Annotations} {m result : Members}
    (h : addClosing e m a = .ok (result, a')) (names : List String) : Frames names m result := by
  unfold addClosing at h
  obtain ⟨tagged, a₁, htagged, h⟩ := Pass.bind_eq_ok.mp h
  obtain ⟨marked, a₂, hmarked, h⟩ := Pass.bind_eq_ok.mp h
  have hframes : Frames names m marked :=
    (Frames.annotateGiven htagged).trans (Frames.annotateGiven hmarked)
  cases hdocs : e.externalDocs with
  | none =>
    rw [hdocs] at h
    cases h
    exact hframes
  | some docs =>
    rw [hdocs] at h
    exact hframes.trans (Frames.annotate h)

/-- The references of an operation to the schemes it is secured by. -/
def securityReferences (project : Project) (e : Endpoint) : List Value :=
  (e.securedBy.map fun required =>
    securedBy required project.environment.securitySchemes).getD []

/-- All members of a declaration but annotations. -/
def declaredNames : List String := introducedNames ++ exchangedNames ++ ["securedBy"]

/-- The members of a finished declaration. -/
structure MethodParts (version : Version) (project : Project) (mediaType : Value) (e : Endpoint)
    (m : Members) : Prop extends Frames declaredNames [] m, Exchanges version mediaType e m where
  named : NamedByTexts m
  protocols : Entries.get? m "protocols" = (Value.texts (protocolNames e.protocols)).given?
  traits : Entries.get? m "is" = (Value.texts (traitNames project.traits e.traits)).given?
  securedBy : Entries.get? m "securedBy" = (Value.list (securityReferences project e)).given?

/-- What is sent and answered stays what it is while other members are written. -/
theorem Exchanges.frame {version : Version} {mediaType : Value} {e : Endpoint} {m m' : Members}
    (h : Exchanges version mediaType e m) {names : List String} (hframes : Frames names m m')
    (hnames : ∀ name ∈ exchangedNames, name ∉ names) : Exchanges version mediaType e m' := by
  -- The step writes none of the five names, so it leaves all of them.
  have hsame : ∀ name ∈ exchangedNames, Unmarked name →
      Entries.get? m' name = Entries.get? m name :=
    fun name hname => hframes.get? name (hnames name hname)
  obtain ⟨⟨body, hbody, hbodyPart⟩, ⟨_, _, hschema, hheaders, hheadersPart⟩,
    ⟨_, _, _, hresponses, hresponsesPart⟩, ⟨_, _, _, _, hquerySchema, hquery, hqueryPart⟩,
    ⟨_, _, _, _, hpathSchema, hpath, hpathPart⟩⟩ := h
  exact ⟨⟨_, hbody, (hsame _ (by decide) (unmarked_of_head (by simp))).trans hbodyPart⟩,
    ⟨_, _, hschema, hheaders,
      (hsame _ (by decide) (unmarked_of_head (by simp))).trans hheadersPart⟩,
    ⟨_, _, _, hresponses,
      (hsame _ (by decide) (unmarked_of_head (by simp))).trans hresponsesPart⟩,
    ⟨_, _, _, _, hquerySchema, hquery,
      (hsame _ (by decide) (unmarked_of_head (by simp))).trans hqueryPart⟩,
    ⟨_, _, _, _, hpathSchema, hpath,
      (hsame _ (by decide) (unmarked_of_head (by simp))).trans hpathPart⟩⟩

/-- **The declaration of an operation**, part by part. -/
theorem methodParts {version : Version} {project : Project} {mediaType : Value} {e : Endpoint}
    {a a' : Annotations} {m : Members}
    (h : methodOf version project mediaType e a = .ok (m, a')) :
    MethodParts version project mediaType e m := by
  unfold methodOf at h
  obtain ⟨introduced, a₁, hintroduced, h₁⟩ := Pass.bind_eq_ok.mp h
  obtain ⟨exchanged, a₂, hexchanged, h₂⟩ := Pass.bind_eq_ok.mp h₁
  have hintroduces := introduces hintroduced
  -- What introduces an operation has none of the names that come next.
  have hnew : ∀ name ∈ exchangedNames, Entries.get? introduced name = none := by
    intro name hname
    simp only [exchangedNames, List.mem_cons, List.not_mem_nil, or_false] at hname
    rcases hname with rfl | rfl | rfl | rfl | rfl
    all_goals exact hintroduces.get? _ (by decide) (unmarked_of_head (by simp))
  obtain ⟨hexchanges, hframes⟩ := exchanges hexchanged hnew
  have hsecured : Frames ["securedBy"] exchanged m :=
    (Frames.putGiven (by decide) _ _).trans (frames_addClosing h₂ _)
  refine { toFrames := ?_, toExchanges := hexchanges.frame hsecured (by decide), named := ?_,
           protocols := ?_, traits := ?_, securedBy := ?_ }
  · exact ((hintroduces.toFrames.mono (by decide)).trans (hframes.mono (by decide))).trans
      (hsecured.mono (by decide))
  · exact (hintroduces.named.frame hframes (by decide)).frame hsecured (by decide)
  · rw [hsecured.get? _ (by decide) (unmarked_of_head (by simp)),
      hframes.get? _ (by decide) (unmarked_of_head (by simp)), hintroduces.protocols]
  · rw [hsecured.get? _ (by decide) (unmarked_of_head (by simp)),
      hframes.get? _ (by decide) (unmarked_of_head (by simp)), hintroduces.traits]
  · rw [(frames_addClosing h₂ []).get? _ (by decide) (unmarked_of_head (by simp))]
    refine Members.get?_putGiven_of_new ?_ _
    rw [hframes.get? _ (by decide) (unmarked_of_head (by simp)),
      hintroduces.get? _ (by decide) (unmarked_of_head (by simp))]
    rfl

end Ramlify.Raml
