import Ramlify.Proofs.Raml.UnmarkedProject

/-!
# Ramlify — every annotation that is written is recorded

Annotations are written in many places, but always by `Annotations.annotate`, which records the kind
it writes. So a part of a pass gives members all of whose annotation names are of recorded kinds, if
what it starts from is so; and the record only grows (`Grown`), so what was written before stays
covered. This module says that of the parts of an operation, up to the whole declaration
(**`methodOf_declared`**). Where annotations are not enabled the record stays as it is.
-/

namespace Ramlify.Raml

/-! ## The record

A record of kinds is only added to. So what was covered once stays covered, and a part of a pass has
to be looked at with the record it leaves and not with all later ones. -/

/-- A record that only grew, and only where annotations are enabled. -/
structure Grown (a a' : Annotations) : Prop where
  enabled : a'.enabled = a.enabled
  kinds : a.kinds ⊆ a'.kinds
  nodup : a.kinds.Nodup → a'.kinds.Nodup
  silent : a.enabled = false → a'.kinds = a.kinds

theorem Grown.refl (a : Annotations) : Grown a a :=
  ⟨rfl, fun _ h => h, id, fun _ => rfl⟩

theorem Grown.trans {a b c : Annotations} (h : Grown a b) (h' : Grown b c) : Grown a c where
  enabled := h'.enabled.trans h.enabled
  kinds := fun _ hk => h'.kinds (h.kinds hk)
  nodup := fun hn => h'.nodup (h.nodup hn)
  silent := fun hdisabled =>
    (h'.silent (h.enabled.trans hdisabled)).trans (h.silent hdisabled)

/-- What is covered by a record is covered by one that grew from it. -/
theorem Grown.declared {a a' : Annotations} (h : Grown a a') {members : Members}
    (hm : members.AllNames (Declared a.kinds)) : members.AllNames (Declared a'.kinds) :=
  hm.mono fun _ hname => hname.mono h.kinds

theorem Grown.declaredValue {a a' : Annotations} (h : Grown a a') {v : Value}
    (hv : v.AllNames (Declared a.kinds)) : v.AllNames (Declared a'.kinds) :=
  hv.mono fun _ hname => hname.mono h.kinds

/-- Members without annotation names are covered by any record. -/
theorem declared_of_unmarked {members : Members} (h : members.AllNames Unmarked)
    (kinds : List String) : members.AllNames (Declared kinds) :=
  h.mono fun _ hname => hname.declared kinds

/-- A value without annotation names is covered by any record. -/
theorem declaredValue_of_unmarked {v : Value} (h : v.AllNames Unmarked) (kinds : List String) :
    v.AllNames (Declared kinds) :=
  h.mono fun _ hname => hname.declared kinds

/-! ## Writing annotations

The three ways in which the program writes annotations: one, one if there is something to write, and
all the extensions of an object. Each records what it writes. -/

/-- A kind that was recorded is in the record. -/
theorem mem_record (a : Annotations) (kind : String) :
    declaredKind kind ∈ (a.record kind).kinds := by
  unfold Annotations.record Annotations.has
  split
  · next h => exact List.contains_iff_mem.mp h
  · exact List.mem_append_right _ List.mem_cons_self

/-- Writing an annotation adds at most its kind, and nothing where annotations are not enabled. -/
theorem grown_annotate (a : Annotations) (target : Members) (kind : String) (v : Value) :
    Grown a (a.annotate target kind v).2 := by
  unfold Annotations.annotate
  cases henabled : a.enabled with
  | false => exact Grown.refl a
  | true =>
    rw [if_pos rfl]
    unfold Annotations.record
    split
    · exact Grown.refl a
    · next hhas =>
      -- A kind is added only if it is new, which keeps the record free of repetitions.
      have hnot : declaredKind kind ∉ a.kinds := fun hmem => hhas (List.contains_iff_mem.mpr hmem)
      refine ⟨rfl, List.subset_append_left _ _, fun hn => ?_, fun hdisabled => ?_⟩
      · refine List.nodup_append.mpr ⟨hn, List.pairwise_singleton _ _, fun k hk other hother => ?_⟩
        rw [List.mem_singleton.mp hother]
        rintro rfl
        exact hnot hk
      · rw [henabled] at hdisabled
        cases hdisabled

/-- What is written is covered by the record that has its kind. -/
theorem annotate_declared {a : Annotations} {target : Members} (kind : String) {v : Value}
    (htarget : target.AllNames (Declared a.kinds)) (hv : v.AllNames (Declared a.kinds)) :
    (a.annotate target kind v).1.AllNames (Declared (a.annotate target kind v).2.kinds) := by
  have hgrown := grown_annotate a target kind v
  unfold Annotations.annotate at hgrown ⊢
  split at hgrown
  · next henabled =>
    rw [if_pos henabled]
    exact (hgrown.declared htarget).put (declared_annotationName (mem_record a kind))
      (hgrown.declaredValue hv)
  · next henabled =>
    rw [if_neg henabled]
    exact htarget

theorem annotateAll_declared {a : Annotations} {target extensions : Members}
    (htarget : target.AllNames (Declared a.kinds)) (hext : extensions.AllNames Unmarked) :
    Grown a (a.annotateAll target extensions).2 ∧
      (a.annotateAll target extensions).1.AllNames
        (Declared (a.annotateAll target extensions).2.kinds) := by
  unfold Annotations.annotateAll
  -- Each extension finds the record that the ones before it left.
  induction extensions generalizing a target with
  | nil => exact ⟨Grown.refl a, htarget⟩
  | cons extension rest ih =>
    obtain ⟨kind, v⟩ := extension
    obtain ⟨⟨_, hv⟩, hrest⟩ := Members.allNames_cons_iff.mp hext
    rw [List.foldl_cons]
    have hgrown := grown_annotate a target kind v
    obtain ⟨hgrown', hall⟩ :=
      ih (annotate_declared kind htarget (declaredValue_of_unmarked hv a.kinds)) hrest
    exact ⟨hgrown.trans hgrown', hall⟩

section

variable {a a' : Annotations} {target result : Members}

/-- What a part of a pass does to a record, and what its members then are. -/
abbrev Recorded (a a' : Annotations) (result : Members) : Prop :=
  Grown a a' ∧ result.AllNames (Declared a'.kinds)

/-- Writing one annotation as a part of a pass. -/
theorem pass_annotate {kind : String} {v : Value}
    (h : annotate target kind v a = .ok (result, a'))
    (htarget : target.AllNames (Declared a.kinds)) (hv : v.AllNames (Declared a.kinds)) :
    Recorded a a' result := by
  have heq : a.annotate target kind v = (result, a') := Except.ok.inj h
  have hgrown := grown_annotate a target kind v
  have hall := annotate_declared kind htarget hv
  rw [heq] at hgrown hall
  exact ⟨hgrown, hall⟩

/-- Writing the extensions of an object as a part of a pass. -/
theorem pass_annotateAll {extensions : Members}
    (h : annotateAll target extensions a = .ok (result, a'))
    (htarget : target.AllNames (Declared a.kinds)) (hext : extensions.AllNames Unmarked) :
    Recorded a a' result := by
  have heq : a.annotateAll target extensions = (result, a') := Except.ok.inj h
  have hall := annotateAll_declared htarget hext
  rw [heq] at hall
  exact hall

/-- Writing an annotation where there is something to write. -/
theorem pass_annotateGiven {kind : String} {v : Value}
    (h : annotateGiven target kind v a = .ok (result, a'))
    (htarget : target.AllNames (Declared a.kinds)) (hv : v.AllNames (Declared a.kinds)) :
    Recorded a a' result := by
  unfold annotateGiven at h
  split at h
  · cases h
    exact ⟨Grown.refl a, htarget⟩
  · exact pass_annotate h htarget hv

end

/-! ## Parameters of the address

Query and path parameters are made from properties, and may bring annotations with them. A list of
them is made one after another, with the record passed along. -/

/-- The fields of a parameter have fixed names, and what they hold comes from its schema. -/
theorem allNames_addressFields {schema : Members} (h : schema.AllNames Unmarked) :
    (addressFields schema).AllNames Unmarked := by
  have hshown : ((Schema.carriedFields schema).putGiven "displayName"
      (Members.find schema "description")).AllNames Unmarked :=
    (allNames_carriedFields h).putGiven (unmarked_of_head (by simp)) (h.find _)
  -- The type comes last, whatever was carried before; it is a text if the schema gives none.
  have htyped : ∀ fields : Members, fields.AllNames Unmarked →
      Members.AllNames Unmarked (Entries.put fields "type"
        (if (Members.find fields "type").isVacant then .str "string"
          else Members.find fields "type")) := by
    intro fields hfields
    refine hfields.put (unmarked_of_head (by simp)) ?_
    split
    · exact Value.allNames_str _
    · exact hfields.find _
  unfold addressFields
  refine htyped _ (Members.AllNames.putGiven ?_ (unmarked_of_head (by simp)) (h.find _))
  split
  · exact hshown
  · next items hitems => exact hshown.put (unmarked_of_head (by simp)) (h.get? hitems)

/-- The annotations of a parameter are written one by one, for the members of its schema that have
no field in RAML. -/
theorem annotateMembers_declared {a a' : Annotations} {schema fields result : Members}
    (h : annotateMembers schema fields a = .ok (result, a')) (hschema : schema.AllNames Unmarked)
    (hfields : fields.AllNames (Declared a.kinds)) : Recorded a a' result := by
  unfold annotateMembers at h
  -- Which members are annotated does not matter.
  generalize annotatedNames = names at h
  induction names generalizing a fields with
  | nil =>
    rw [List.foldlM_nil, Pass.pure_eq_ok] at h
    obtain ⟨rfl, rfl⟩ := h
    exact ⟨Grown.refl _, hfields⟩
  | cons name names ih =>
    rw [List.foldlM_cons] at h
    obtain ⟨next, a₁, hnext, h⟩ := Pass.bind_eq_ok.mp h
    have hstep : Recorded a a₁ next := by
      cases hget : Entries.get? schema name with
      | none =>
        rw [hget] at hnext
        cases hnext
        exact ⟨Grown.refl _, hfields⟩
      | some member =>
        rw [hget] at hnext
        exact pass_annotate hnext hfields
          (declaredValue_of_unmarked (hschema.get? hget) a.kinds)
    obtain ⟨hgrown, hall⟩ := ih hstep.2 h
    exact ⟨hstep.1.trans hgrown, hall⟩

/-- A parameter keeps the name of its property. -/
theorem addressParameter_declared {a a' : Annotations} {property parameter : String × Members}
    (h : addressParameter property a = .ok (parameter, a'))
    (hproperty : property.2.AllNames Unmarked) :
    parameter.1 = property.1 ∧ Recorded a a' parameter.2 := by
  unfold addressParameter at h
  obtain ⟨fields, a₁, hfields, h⟩ := Pass.bind_eq_ok.mp h
  cases h
  exact ⟨rfl, annotateMembers_declared hfields hproperty
    (declared_of_unmarked (allNames_addressFields hproperty) a.kinds)⟩

/-- What was written for the first parameters stays covered while the others are made. -/
theorem mapM_addressParameter_declared {properties parameters : List (String × Members)} :
    ∀ {a a' : Annotations}, properties.mapM addressParameter a = .ok (parameters, a') →
      ParametersAllowed Unmarked properties →
      Grown a a' ∧ ParametersAllowed (Declared a'.kinds) parameters := by
  induction properties generalizing parameters with
  | nil =>
    intro a a' h _
    rw [List.mapM_nil, Pass.pure_eq_ok] at h
    obtain ⟨rfl, rfl⟩ := h
    exact ⟨Grown.refl _, nofun⟩
  | cons property properties ih =>
    intro a a' h hallowed
    rw [List.mapM_cons] at h
    obtain ⟨first, a₁, hfirst, h⟩ := Pass.bind_eq_ok.mp h
    obtain ⟨rest, a₂, hrest, h⟩ := Pass.bind_eq_ok.mp h
    cases h
    obtain ⟨hname, hfields⟩ := hallowed property.1 property.2 List.mem_cons_self
    obtain ⟨hsame, hgrown, hdeclared⟩ := addressParameter_declared hfirst hfields
    obtain ⟨hgrown', hall⟩ :=
      ih hrest fun name fields hmem => hallowed name fields (List.mem_cons_of_mem _ hmem)
    refine ⟨hgrown.trans hgrown', fun name fields hmem => ?_⟩
    rcases List.mem_cons.mp hmem with heq | hmem
    · -- The first parameter was covered when it was made, and the record has only grown.
      cases heq
      have hsame : name = property.1 := hsame
      rw [← hsame] at hname
      exact ⟨hname.declared _, hgrown'.declared hdeclared⟩
    · exact hall name fields hmem

/-- The query or path parameters that the members of a schema give. -/
def addressParametersOf (schema : Members) : Pass (Option Value) := do
  let properties := Members.find schema "properties"
  if properties.isVacant then return none
  let properties ← (properties.members : Outcome Members)
  return some (accepted (← (objectProperties properties).mapM addressParameter))

/-- The members that a schema has, none if there is nothing in it. -/
def schemaMembers (schema : Value) : Outcome Members :=
  if schema.isVacant then .ok [] else schema.members

theorem schemaMembers_obj (members : Members) : schemaMembers (.obj members) = .ok members := by
  cases members <;> rfl

/-- The parameters are made in two steps, of which the first one only looks for members. -/
theorem addressParameters_eq (schema : Value) :
    addressParameters schema = liftM (schemaMembers schema) >>= addressParametersOf := by
  unfold addressParameters schemaMembers
  split
  · rfl
  · rfl

/-- A schema without properties gives no parameters. Any other gives one for each property that is
an object, unless its type is not accepted. -/
theorem addressParameters_cases {schema : Value} {a a' : Annotations} {v : Option Value}
    (h : addressParameters schema a = .ok (v, a')) :
    ∃ members, schemaMembers schema = .ok members
      ∧ (((Members.find members "properties").isVacant = true ∧ v = none ∧ a' = a)
        ∨ ¬ (Members.find members "properties").isVacant = true
          ∧ ∃ properties parameters, Members.find members "properties" = .obj properties
            ∧ (objectProperties properties).mapM addressParameter a = .ok (parameters, a')
            ∧ v = some (accepted parameters)) := by
  rw [addressParameters_eq] at h
  obtain ⟨members, a₁, hlift, hrest⟩ := Pass.bind_eq_ok.mp h
  obtain ⟨hmembers, rfl⟩ := Pass.lift_eq_ok.mp hlift
  refine ⟨members, hmembers, ?_⟩
  unfold addressParametersOf at hrest
  split at hrest
  · -- Nothing is declared and nothing is recorded.
    next hvacant =>
    cases hrest
    exact Or.inl ⟨hvacant, rfl, rfl⟩
  · next hgiven =>
    obtain ⟨properties, a₂, hproperties, hmade⟩ := Pass.bind_eq_ok.mp hrest
    obtain ⟨hobj, rfl⟩ := Pass.lift_eq_ok.mp hproperties
    obtain ⟨parameters, a₃, hparameters, hresult⟩ := Pass.bind_eq_ok.mp hmade
    cases hresult
    exact Or.inr ⟨hgiven, properties, parameters, Value.members_eq_ok hobj, hparameters, rfl⟩

/-- The parameters of an address are covered by the record they leave. -/
theorem addressParameters_declared {a a' : Annotations} {schema : Value} {result : Option Value}
    (h : addressParameters schema a = .ok (result, a')) (hschema : schema.AllNames Unmarked) :
    Grown a a' ∧ (result.getD .null).AllNames (Declared a'.kinds) := by
  obtain ⟨members, hmembers, hcases⟩ := addressParameters_cases h
  have hall : members.AllNames Unmarked := by
    unfold schemaMembers at hmembers
    split at hmembers
    · cases hmembers
      exact Members.allNames_nil
    · rwa [Value.members_eq_ok hmembers, Value.allNames_obj_iff] at hschema
  rcases hcases with ⟨_, rfl, rfl⟩ | ⟨_, properties, parameters, hobj, hparameters, rfl⟩
  · exact ⟨Grown.refl _, Value.allNames_null⟩
  · have hnames := hall.find "properties"
    rw [hobj, Value.allNames_obj_iff] at hnames
    obtain ⟨hgrown, hallowed⟩ :=
      mapM_addressParameter_declared hparameters (objectProperties_allowed hnames)
    exact ⟨hgrown, allNames_accepted hallowed⟩

/-! ## Operations

The declaration of an operation is made part by part: what introduces it, what it exchanges, and
what closes it. Each part is given the members so far and the record so far. -/

/-- The media type of an API, of which the first one may be used for bodies. -/
def TypeUnmarked (general : Value) : Prop := Unmarked (mediaTypeFor [] general)

/-- A media type is that of an operation or that of the API. -/
theorem unmarked_mediaTypeFor {types : List String} {general : Value}
    (htypes : ∀ type ∈ types, Unmarked type) (hgeneral : TypeUnmarked general) :
    Unmarked (mediaTypeFor types general) := by
  cases types with
  | nil => exact hgeneral
  | cons type types =>
    rw [mediaTypeFor]
    exact htypes type List.mem_cons_self

/-- The introduction of an operation has its extensions, its name, its description, its traits and
its requirements. -/
theorem introduction_declared {version : Version} {traits : List Trait} {e : Endpoint}
    {a a' : Annotations} {m : Members} (h : introduction version traits e a = .ok (m, a'))
    (he : EndpointUnmarked e) : Recorded a a' m := by
  unfold introduction at h
  obtain ⟨extended, a₁, hextended, h⟩ := Pass.bind_eq_ok.mp h
  obtain ⟨hgrown, hall⟩ := pass_annotateAll hextended Members.allNames_nil he.extensions
  obtain ⟨summed, a₂, hsummed, h⟩ := Pass.bind_eq_ok.mp h
  cases h
  have hfixed : ∀ name : String, name.toList.head? ≠ some '(' → Declared a₁.kinds name :=
    fun name hname => (unmarked_of_head hname).declared a₁.kinds
  -- Where a name is shown depends on the version, but not what it is shown under.
  have hnamed : (version.addDisplayName extended
      (.str (textOr e.name e.operationId))).AllNames (Declared a₁.kinds) := by
    unfold Version.addDisplayName
    split
    · exact hall
    · split
      · exact hall.put (hfixed _ (by simp)) (Value.allNames_str _)
      · split
        · exact hall
        · exact hall.put (hfixed _ (by simp)) (Value.allNames_str _)
  obtain ⟨hgrown', hall'⟩ := pass_annotateGiven hsummed
    (hnamed.putGiven (hfixed _ (by simp)) (Value.allNames_str _)) (Value.allNames_str _)
  refine ⟨hgrown.trans hgrown', ?_⟩
  exact (hall'.putGiven ((unmarked_of_head (by simp)).declared _) (Value.allNames_texts _)).putGiven
    ((unmarked_of_head (by simp)).declared _) (Value.allNames_texts _)

/-- A body is made from schemas and media types only. -/
theorem allNames_operationBody {version : Version} {mediaType : Value} {e : Endpoint}
    {body : Option Value} (h : operationBody version mediaType e = .ok body)
    (he : EndpointUnmarked e) (htype : TypeUnmarked mediaType) :
    (body.getD .null).AllNames Unmarked := by
  have hentry : EntryUnmarked e.request.body := by
    unfold Request.body
    cases hbodies : e.request.bodies with
    | nil => exact ⟨Members.allNames_nil, nofun, nofun⟩
    | cons entry entries =>
      exact he.request.bodies entry (by rw [hbodies]; exact List.mem_cons_self)
  unfold operationBody at h
  split at h
  · exact allNames_requestBody h hentry (unmarked_mediaTypeFor he.consumes htype)
  · cases h
    exact Value.allNames_null

/-- Responses are made one after another, and their headers and extensions may be annotations. -/
theorem operationResponses_declared {version : Version} {mediaType : Value} {e : Endpoint}
    {a a' : Annotations} {m : Members}
    (h : operationResponses version mediaType e a = .ok (m, a')) (he : EndpointUnmarked e)
    (htype : TypeUnmarked mediaType) : Recorded a a' m := by
  unfold operationResponses at h
  obtain ⟨responses, a₁, hlift, hrest⟩ := Pass.bind_eq_ok.mp h
  obtain ⟨hresponses, rfl⟩ := Pass.lift_eq_ok.mp hlift
  have hall := declared_of_unmarked (allNames_responsesByCode hresponses he.responses
    (unmarked_mediaTypeFor he.produces htype)) a₁.kinds
  split at hrest
  · cases hrest
    exact ⟨Grown.refl _, Members.allNames_nil⟩
  · exact pass_annotateAll hrest hall he.responseExtensions

/-- Headers and body have no annotations; responses and the parameters of the address may bring
some. -/
theorem addExchange_declared {version : Version} {mediaType : Value} {e : Endpoint}
    {a a' : Annotations} {m result : Members}
    (h : addExchange version mediaType e m a = .ok (result, a')) (he : EndpointUnmarked e)
    (htype : TypeUnmarked mediaType) (hm : m.AllNames (Declared a.kinds)) :
    Recorded a a' result := by
  unfold addExchange at h
  obtain ⟨body, a₁, hlift, h₁⟩ := Pass.bind_eq_ok.mp h
  obtain ⟨hbody, rfl⟩ := Pass.lift_eq_ok.mp hlift
  obtain ⟨headersSchema, a₂, hlift, h₂⟩ := Pass.bind_eq_ok.mp h₁
  obtain ⟨hheadersSchema, rfl⟩ := Pass.lift_eq_ok.mp hlift
  obtain ⟨headers, a₃, hlift, h₃⟩ := Pass.bind_eq_ok.mp h₂
  obtain ⟨hheaders, rfl⟩ := Pass.lift_eq_ok.mp hlift
  obtain ⟨responses, a₄, hresponses, h₄⟩ := Pass.bind_eq_ok.mp h₃
  obtain ⟨querySchema, a₅, hlift, h₅⟩ := Pass.bind_eq_ok.mp h₄
  obtain ⟨hquerySchema, rfl⟩ := Pass.lift_eq_ok.mp hlift
  obtain ⟨query, a₆, hquery, h₆⟩ := Pass.bind_eq_ok.mp h₅
  obtain ⟨pathSchema, a₇, hlift, h₇⟩ := Pass.bind_eq_ok.mp h₆
  obtain ⟨hpathSchema, rfl⟩ := Pass.lift_eq_ok.mp hlift
  obtain ⟨path, a₈, hpath, h₈⟩ := Pass.bind_eq_ok.mp h₇
  cases h₈
  -- The parts in the order in which they are made; only responses and parameters are passes, and
  -- each of these lets the record grow.
  have hfixed : ∀ (kinds : List String) (name : String), name.toList.head? ≠ some '(' →
      Declared kinds name := fun kinds name hname => (unmarked_of_head hname).declared kinds
  have hopened := (hm.putGiven (hfixed _ "body" (by simp))
    (declaredValue_of_unmarked (allNames_operationBody hbody he htype) _)).putGiven
    (hfixed _ "headers" (by simp)) (declaredValue_of_unmarked
      (allNames_namedParameters hheaders (he.request.headers _ hheadersSchema)) _)
  obtain ⟨hgrown₁, hresponses⟩ := operationResponses_declared hresponses he htype
  have hanswered := (hgrown₁.declared hopened).putGiven (hfixed _ "responses" (by simp))
    (Value.allNames_obj_iff.mpr hresponses)
  obtain ⟨hgrown₂, hquery⟩ :=
    addressParameters_declared hquery (he.request.query _ hquerySchema)
  have hasked := (hgrown₂.declared hanswered).putGiven (hfixed _ "queryParameters" (by simp))
    hquery
  obtain ⟨hgrown₃, hpath⟩ :=
    addressParameters_declared hpath (he.request.pathParams _ hpathSchema)
  exact ⟨(hgrown₁.trans hgrown₂).trans hgrown₃,
    (hgrown₃.declared hasked).putGiven (hfixed _ "uriParameters" (by simp)) hpath⟩

/-- Documentation that an operation refers to has fixed names. -/
theorem allNames_operationDocs (docs : ExternalDocs) :
    (operationDocs docs).AllNames Unmarked := by
  unfold operationDocs
  refine Members.AllNames.append ?_ ?_
  · intro name v hmem
    obtain ⟨text, _, heq⟩ := Option.map_eq_some_iff.mp (Option.mem_toList.mp hmem)
    cases heq
    exact ⟨unmarked_of_head (by simp), Value.allNames_str _⟩
  · exact Members.allNames_cons_iff.mpr
      ⟨⟨unmarked_of_head (by simp), Value.allNames_str _⟩, Members.allNames_nil⟩

/-- Tags, deprecation and documentation are annotations themselves. -/
theorem addClosing_declared {e : Endpoint} {a a' : Annotations} {m result : Members}
    (h : addClosing e m a = .ok (result, a')) (hm : m.AllNames (Declared a.kinds)) :
    Recorded a a' result := by
  unfold addClosing at h
  obtain ⟨tagged, a₁, htagged, h₁⟩ := Pass.bind_eq_ok.mp h
  obtain ⟨hgrown₁, hall₁⟩ := pass_annotateGiven htagged hm (Value.allNames_texts _)
  obtain ⟨marked, a₂, hmarked, h₂⟩ := Pass.bind_eq_ok.mp h₁
  obtain ⟨hgrown₂, hall₂⟩ := pass_annotateGiven hmarked hall₁ (Value.allNames_bool _)
  have hgrown := hgrown₁.trans hgrown₂
  -- Tags and the mark are there in any case; the documentation may be missing.
  cases hdocs : e.externalDocs with
  | none =>
    rw [hdocs] at h₂
    cases h₂
    exact ⟨hgrown, hall₂⟩
  | some docs =>
    rw [hdocs] at h₂
    obtain ⟨hgrown₃, hall₃⟩ := pass_annotate h₂ hall₂
      (Value.allNames_obj_iff.mpr (declared_of_unmarked (allNames_operationDocs docs) _))
    exact ⟨hgrown.trans hgrown₃, hall₃⟩

/-- **The annotations of an operation are recorded.** -/
theorem methodOf_declared {version : Version} {project : Project} {mediaType : Value}
    {e : Endpoint} {a a' : Annotations} {m : Members}
    (h : methodOf version project mediaType e a = .ok (m, a')) (he : EndpointUnmarked e)
    (htype : TypeUnmarked mediaType)
    (hschemes : SchemesUnmarked project.environment.securitySchemes) : Recorded a a' m := by
  unfold methodOf at h
  obtain ⟨introduced, a₁, hintroduced, h₁⟩ := Pass.bind_eq_ok.mp h
  obtain ⟨hgrown₁, hall₁⟩ := introduction_declared hintroduced he
  obtain ⟨exchanged, a₂, hexchanged, h₂⟩ := Pass.bind_eq_ok.mp h₁
  obtain ⟨hgrown₂, hall₂⟩ := addExchange_declared hexchanged he htype hall₁
  -- The references of security schemes are names and lists of scopes.
  have hsecured : (Value.list ((e.securedBy.map fun required =>
      securedBy required project.environment.securitySchemes).getD [])).AllNames Unmarked := by
    cases e.securedBy with
    | none => exact Value.allNames_list_iff.mpr nofun
    | some required => exact allNames_securedBy required hschemes
  obtain ⟨hgrown₃, hall₃⟩ := addClosing_declared h₂
    (hall₂.putGiven ((unmarked_of_head (by simp)).declared _)
      (declaredValue_of_unmarked hsecured _))
  exact ⟨(hgrown₁.trans hgrown₂).trans hgrown₃, hall₃⟩

end Ramlify.Raml
