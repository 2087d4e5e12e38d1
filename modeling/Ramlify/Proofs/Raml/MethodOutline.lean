import Ramlify.Proofs.Raml.AnnotatedMethod
import Ramlify.Proofs.Raml.MethodParts
import Ramlify.Proofs.Raml.Outline

/-!
# Ramlify — the outline of a method is that of its operation

Two versions declare an operation with different bodies, with or without annotations. What is left
in the outline depends on the operation alone: parameters are accepted by fields that no annotation
changes, and a response has its description and its headers whatever its body is.

* **`addressParameters_agree`** — parameters, up to their annotations.
* **`operationResponses_agree`** — responses, up to their bodies and annotations.
* **`methodsAgree`** — whole declarations.
-/

namespace Ramlify.Raml

/-- Writing annotations alone leaves all other members as they are. -/
theorem unannotated_of_frames {m m' : Members} (h : Frames [] m m') :
    unannotated m' = unannotated m := by
  refine h.kept (fun name => !isMarked name) fun name hname => ⟨nofun, ?_⟩
  exact isMarked_eq_false_iff.mp (by simpa using hname)

/-- Leaving out annotations changes no other member. -/
theorem get?_unannotated (m : Members) {name : String} (h : Unmarked name) :
    Entries.get? (unannotated m) name = Entries.get? m name := by
  refine (Entries.get?_filter_keys m (fun name => !isMarked name) name).trans (if_pos ?_)
  rw [isMarked_eq_false_iff.mpr h]
  rfl

/-! ## Parameters

A parameter is accepted by its type, and of an accepted one the fields that do not go with the type
are left out. No annotation is a type, so accepting parameters and leaving out their annotations can
be done in either order. -/

/-- Whether a parameter is accepted does not depend on its annotations. -/
theorem acceptParameter?_unannotated (fields : Members) :
    (Schema.acceptParameter? fields).map unannotated
      = Schema.acceptParameter? (unannotated fields) := by
  have htype : Entries.get? (unannotated fields) "type" = Entries.get? fields "type" :=
    get?_unannotated fields (unmarked_of_head (by simp))
  unfold Schema.acceptParameter? Members.find Entries.has
  rw [htype]
  dsimp only
  split
  · rfl
  · rw [Option.map_some, unannotated, unannotated, List.filter_filter, List.filter_filter]
    exact congrArg some (List.filter_congr fun field _ => Bool.and_comm _ _)

/-- Parameters with the fields that they have without annotations. -/
def unannotatedEach (parameters : List (String × Members)) : List (String × Members) :=
  parameters.map fun parameter => (parameter.1, unannotated parameter.2)

/-- The order does not matter for a list of parameters. -/
theorem unannotatedEach_acceptParameters (parameters : List (String × Members)) :
    unannotatedEach (Schema.acceptParameters parameters)
      = Schema.acceptParameters (unannotatedEach parameters) := by
  unfold unannotatedEach Schema.acceptParameters
  rw [List.map_filterMap, List.filterMap_map]
  refine List.filterMap_congr fun parameter _ => ?_
  rw [Function.comp_apply, ← acceptParameter?_unannotated, Option.map_map, Option.map_map]
  rfl

/-- Nor for the parameters that a member of a definition holds. -/
theorem plainParameters_accepted (parameters : List (String × Members)) :
    plainParameters (accepted parameters) = accepted (unannotatedEach parameters) := by
  rw [accepted, accepted, ← unannotatedEach_acceptParameters]
  unfold Schema.parameterMap plainParameters plainMembers Entries.mapValues unannotatedEach
  dsimp only
  rw [List.map_map, List.map_map]
  rfl

/-- The annotations of a parameter are all that is added to its fields. By induction over the names
of the members that become annotations. -/
theorem unannotated_annotateMembers {schema fields result : Members} {a a' : Annotations}
    (h : annotateMembers schema fields a = .ok (result, a')) :
    unannotated result = unannotated fields := by
  refine unannotated_of_frames ?_
  unfold annotateMembers at h
  generalize annotatedNames = names at h
  -- The induction is on the names, so they are no longer the fixed ones.
  induction names generalizing fields a with
  | nil =>
    cases h
    exact Frames.refl [] _
  | cons name names ih =>
    rw [List.foldlM_cons] at h
    obtain ⟨next, a₁, hnext, hrest⟩ := Pass.bind_eq_ok.mp h
    have hstep : Frames [] fields next := by
      cases hget : Entries.get? schema name with
      | none =>
        rw [hget] at hnext
        cases hnext
        exact Frames.refl [] fields
      | some member =>
        rw [hget] at hnext
        exact Frames.annotate hnext
    exact hstep.trans (ih hrest)

/-- **Parameters of the address** are the same in all runs, up to their annotations. -/
theorem addressParameters_agree {schema : Value} {a a' b b' : Annotations} {v w : Option Value}
    (h : addressParameters schema a = .ok (v, a'))
    (h' : addressParameters schema b = .ok (w, b')) :
    v.map plainParameters = w.map plainParameters := by
  obtain ⟨members, hmembers, hcases⟩ := addressParameters_cases h
  obtain ⟨members', hmembers', hcases'⟩ := addressParameters_cases h'
  cases hmembers.symm.trans hmembers'
  rcases hcases with ⟨hvacant, rfl, _⟩ |
    ⟨hgiven, properties, parameters, hproperties, hparameters, rfl⟩
  · rcases hcases' with ⟨_, rfl, _⟩ | ⟨hgiven, _⟩
    · rfl
    · exact absurd hvacant hgiven
  · obtain ⟨_, properties', parameters', hproperties', hparameters', rfl⟩ :=
      hcases'.resolve_left fun hempty => hgiven hempty.1
    cases hproperties.symm.trans hproperties'
    -- Each parameter is made of its property alone, but for its annotations.
    have hstep : ∀ (property : String × Members) a parameter a',
        addressParameter property a = .ok (parameter, a') →
        (parameter.1, unannotated parameter.2)
          = (property.1, unannotated (addressFields property.2)) := by
      intro property a parameter a' hparameter
      obtain ⟨fields, _, hfields, hresult⟩ := Pass.bind_eq_ok.mp hparameter
      cases hresult
      exact congrArg _ (unannotated_annotateMembers hfields)
    have hsame : unannotatedEach parameters = unannotatedEach parameters' :=
      (Pass.map_eq_map_of_mapM hstep hparameters).trans
        (Pass.map_eq_map_of_mapM hstep hparameters').symm
    rw [Option.map_some, Option.map_some, plainParameters_accepted, plainParameters_accepted,
      hsame]

/-- Parameters that agree agree also as members that may be left out. -/
theorem plainParameters_given? {v w : Option Value}
    (h : v.map plainParameters = w.map plainParameters) :
    ((v.getD .null).given?).map plainParameters = ((w.getD .null).given?).map plainParameters := by
  have hplain : ∀ u : Option Value, ((u.getD .null).given?).map plainParameters
      = ((u.map plainParameters).getD .null).given? := by
    intro u
    cases u with
    | none => rfl
    | some u =>
      rw [Option.map_some, Option.getD_some, Option.getD_some, Value.given?, Value.given?,
        isVacant_plainParameters]
      split <;> rfl
  rw [hplain, hplain, h]

/-! ## Responses

The outline of a response has its description and its headers. The body is left out, as its schema
is written in one way or another by version. -/

/-- A response has its description and its headers whatever its body is. -/
theorem outlineResponse_agree {version version' : Version} {mediaType mediaType' : String}
    {response : Response} {fields fields' : Members}
    (h : responseFields version mediaType response = .ok fields)
    (h' : responseFields version' mediaType' response = .ok fields') :
    outlineResponse (.obj fields) = outlineResponse (.obj fields') := by
  have houtline : ∀ body headers : Value,
      outlineResponse (.obj (Members.putGiven (Members.putGiven (Members.putGiven [] "body" body)
          "description" (.str response.description)) "headers" headers))
        = .obj (Members.putGiven (Members.putGiven [] "description" (.str response.description))
            "headers" headers) := by
    intro body headers
    unfold outlineResponse
    dsimp only
    rw [Members.filter_putGiven, Members.filter_putGiven, Members.filter_putGiven]
    rfl
  -- Both responses have the headers that are given, and these can be made in one way only.
  unfold responseFields at h h'
  obtain ⟨body, _, h₁⟩ := Outcome.bind_eq_ok.mp h
  obtain ⟨headers, hheaders, h₂⟩ := Outcome.bind_eq_ok.mp h₁
  obtain ⟨body', _, h₁'⟩ := Outcome.bind_eq_ok.mp h'
  obtain ⟨headers', hheaders', h₂'⟩ := Outcome.bind_eq_ok.mp h₁'
  cases hheaders.symm.trans hheaders'
  cases h₂
  cases h₂'
  rw [houtline, houtline]

/-- The outlines of responses. -/
def responseOutlines (responses : Members) : Members :=
  Entries.mapValues (fun _ => outlineResponse) responses

/-- The same for all responses under their codes. A code of several responses has the last one, in
both versions. -/
theorem responseOutlines_agree {version version' : Version} {mediaType mediaType' : String}
    {responses : List Response} {byCode byCode' : Members}
    (h : responsesByCode version mediaType responses = .ok byCode)
    (h' : responsesByCode version' mediaType' responses = .ok byCode') :
    responseOutlines byCode = responseOutlines byCode' := by
  unfold responsesByCode at h h'
  obtain ⟨declared, hdeclared, h₁⟩ := Outcome.bind_eq_ok.mp h
  obtain ⟨declared', hdeclared', h₁'⟩ := Outcome.bind_eq_ok.mp h'
  cases h₁
  cases h₁'
  unfold responseOutlines
  rw [← Entries.ofList_mapValues, ← Entries.ofList_mapValues]
  -- Response by response; which codes there are does not depend on the version.
  refine congrArg Entries.ofList (Outcome.map_eq_map_of_mapM ?_ hdeclared hdeclared')
  intro pair first second hfirst hsecond
  obtain ⟨fields, hfields, h₂⟩ := Outcome.bind_eq_ok.mp hfirst
  obtain ⟨fields', hfields', h₂'⟩ := Outcome.bind_eq_ok.mp hsecond
  cases h₂
  cases h₂'
  exact congrArg (Prod.mk pair.1) (outlineResponse_agree hfields hfields')

/-- The codes of responses are no annotations. -/
theorem unannotated_responsesByCode {version : Version} {mediaType : String}
    {responses : List Response} {byCode : Members}
    (h : responsesByCode version mediaType responses = .ok byCode) :
    unannotated byCode = byCode := by
  refine List.filter_eq_self.mpr fun member hmember => ?_
  have hdigits := isDigits_of_responsesByCode h member.1 (List.mem_map_of_mem hmember)
  rw [isMarked_eq_false_iff.mpr (unmarked_of_isDigits hdigits)]
  rfl

/-- The annotations of responses leave their outlines as they are. -/
theorem outlineResponses_of_operationResponses {version : Version} {mediaType : Value}
    {e : Endpoint} {a a' : Annotations} {responses : Members}
    (h : operationResponses version mediaType e a = .ok (responses, a')) :
    ∃ byCode, responsesByCode version (mediaTypeFor e.produces mediaType) e.responses = .ok byCode
      ∧ (Value.obj responses).given?.map outlineResponses
        = (Value.obj (responseOutlines byCode)).given? := by
  unfold operationResponses at h
  obtain ⟨byCode, a₁, hlift, hrest⟩ := Pass.bind_eq_ok.mp h
  obtain ⟨hbyCode, rfl⟩ := Pass.lift_eq_ok.mp hlift
  refine ⟨byCode, hbyCode, ?_⟩
  split at hrest
  · next hempty =>
    cases hrest
    rw [List.isEmpty_iff.mp hempty]
    rfl
  · -- The extensions of the responses were written to them, and leaving these out gives back what
    -- there was.
    next hgiven =>
    have hframes : Frames [] byCode responses := Frames.annotateAll hrest
    have hsame : unannotated responses = byCode :=
      (unannotated_of_frames hframes).trans (unannotated_responsesByCode hbyCode)
    have hkept : ¬ (Value.obj responses).isVacant = true := by
      intro hvacant
      rw [List.isEmpty_iff.mp hvacant] at hsame
      exact hgiven (hsame ▸ rfl)
    have houtlines : ¬ (Value.obj (responseOutlines byCode)).isVacant = true := by
      rw [Value.isVacant, responseOutlines, Entries.isEmpty_mapValues]
      exact hgiven
    rw [Value.given?, Value.given?, if_neg hkept, if_neg houtlines, Option.map_some,
      outlineResponses, hsame, responseOutlines]

/-- **Responses** are the same in all versions, up to their bodies and annotations. -/
theorem operationResponses_agree {version version' : Version} {mediaType mediaType' : Value}
    {e : Endpoint} {a a' b b' : Annotations} {responses responses' : Members}
    (h : operationResponses version mediaType e a = .ok (responses, a'))
    (h' : operationResponses version' mediaType' e b = .ok (responses', b')) :
    (Value.obj responses).given?.map outlineResponses
      = (Value.obj responses').given?.map outlineResponses := by
  obtain ⟨byCode, hbyCode, houtlines⟩ := outlineResponses_of_operationResponses h
  obtain ⟨byCode', hbyCode', houtlines'⟩ := outlineResponses_of_operationResponses h'
  rw [houtlines, houtlines', responseOutlines_agree hbyCode hbyCode']

/-! ## Methods

All the parts of a declaration together; the parameters of the path are compared apart from the
others, since a resource takes them over. -/

/-- **The declarations of an operation agree**, whatever the versions and the media types. -/
theorem methodsAgree {version version' : Version} {project : Project}
    {mediaType mediaType' : Value} {e : Endpoint} {m m' : Members}
    (h : MethodParts version project mediaType e m)
    (h' : MethodParts version' project mediaType' e m') : MethodsAgree m m' := by
  obtain ⟨_, headers, hschema, hheaders, hheadersPart⟩ := h.headers
  obtain ⟨_, headers', hschema', hheaders', hheadersPart'⟩ := h'.headers
  cases hschema.symm.trans hschema'
  cases hheaders.symm.trans hheaders'
  obtain ⟨_, responses, _, hresponses, hresponsesPart⟩ := h.responses
  obtain ⟨_, responses', _, hresponses', hresponsesPart'⟩ := h'.responses
  obtain ⟨_, _, query, _, hquerySchema, hquery, hqueryPart⟩ := h.query
  obtain ⟨_, _, query', _, hquerySchema', hquery', hqueryPart'⟩ := h'.query
  cases hquerySchema.symm.trans hquerySchema'
  obtain ⟨_, _, path, _, hpathSchema, hpath, hpathPart⟩ := h.path
  obtain ⟨_, _, path', _, hpathSchema', hpath', hpathPart'⟩ := h'.path
  cases hpathSchema.symm.trans hpathSchema'
  constructor
  · -- The parts that are common to all versions, one after another.
    have hparts : ∀ name ∈ commonNames,
        (Entries.get? m name).map (outlinePart name)
          = (Entries.get? m' name).map (outlinePart name) := by
      intro name hname
      simp only [commonNames, List.mem_cons, List.not_mem_nil, or_false] at hname
      rcases hname with rfl | rfl | rfl | rfl | rfl | rfl
      · rw [h.protocols, h'.protocols]
      · rw [h.traits, h'.traits]
      · rw [h.securedBy, h'.securedBy]
      · rw [hheadersPart, hheadersPart']
      · rw [hqueryPart, hqueryPart']
        exact plainParameters_given? (addressParameters_agree hquery hquery')
      · rw [hresponsesPart, hresponsesPart']
        exact operationResponses_agree hresponses hresponses'
    refine congrArg Value.obj (List.filterMap_congr fun name hname => ?_)
    have hpart := congrArg (Option.map (Prod.mk name)) (hparts name hname)
    rwa [Option.map_map, Option.map_map] at hpart
  · -- The parameters of the path are an empty member in one version exactly if they are in the
    -- other.
    have hgiven := plainParameters_given? (addressParameters_agree hpath hpath')
    rw [← hpathPart, ← hpathPart'] at hgiven
    unfold Members.find
    cases hget : Entries.get? m "uriParameters" with
    | none =>
      rw [hget] at hgiven
      rw [Option.map_eq_none_iff.mp hgiven.symm]
    | some v =>
      rw [hget] at hgiven
      obtain ⟨w, hw, hsame⟩ := Option.map_eq_some_iff.mp hgiven.symm
      rw [hw, Option.getD_some, Option.getD_some, hsame]

end Ramlify.Raml
