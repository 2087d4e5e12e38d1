import Ramlify.Proofs.Raml.ParameterFields
import Ramlify.Proofs.Raml.ShownMethods
import Ramlify.Proofs.Raml.VersionsAgree

/-!
# Ramlify — where path parameters are declared

The path parameters of an operation are written into its declaration, and from there those move to
the resource at the end of its path whose names occur in the last segment; the others are dropped.
So a resource on the way, whose segment is a parameter, declares it only if some operation that has
the parameter ends there.

* **`mem_addressParameters_iff`** — the names of the parameters that a declaration has.
* **`mem_parametersAt_iff`** — the names of those that move to a resource.
* **`pathParameters_declared`** — what a definition declares at its resources.
-/

namespace Ramlify

/-- Whether a parameter may have a type. One without anything in it stands for texts. -/
def Schema.acceptsType (type : Value) : Bool :=
  type.isVacant || Schema.parameterTypes.any type.isText

/-- An operation has a path parameter: an object among the properties of its path parameters, of a
type that parameters may have. -/
def Endpoint.HasPathParameter (e : Endpoint) (name : String) : Prop :=
  ∃ schema properties fields, e.request.read .pathParams = .ok (.obj schema)
    ∧ Members.find schema "properties" = .obj properties
    ∧ (name, .obj fields) ∈ properties
    ∧ Schema.acceptsType (Members.find fields "type") = true

/-- The test whether a text occurs in another one. -/
theorem Value.isWithin_iff {part cs : List Char} : isWithin part cs = true ↔ part <:+: cs := by
  induction cs with
  | nil => rw [isWithin, List.isEmpty_iff, List.infix_nil]
  | cons c cs ih =>
    rw [isWithin, Bool.or_eq_true, ih, List.isPrefixOf_iff_prefix, List.infix_cons_iff]

end Ramlify

namespace Ramlify.Raml

/-! ## The parameters of a declaration

A parameter of the address gets a type if its schema gives none, and it is written if the type is
accepted. So whether a property is written can be told from the schema. -/

/-- The type of a parameter of the address: that of its schema, or texts. -/
theorem get?_type_addressFields (schema : Members) :
    Entries.get? (addressFields schema) "type"
      = some (if (Members.find schema "type").isVacant then .str "string"
        else Members.find schema "type") := by
  unfold addressFields
  dsimp only
  generalize hfields : Members.putGiven _ "format" _ = fields
  -- Nothing that is put to the fields before is called `type`.
  have hframes : Frames ["displayName", "items", "format"]
      (Schema.carriedFields schema) fields := by
    rw [← hfields]
    cases Entries.get? schema "items" with
    | none => exact (Frames.putGiven (by decide) _ _).trans (Frames.putGiven (by decide) _ _)
    | some items =>
      exact ((Frames.putGiven (by decide) _ _).trans (Frames.put (by decide) _ _)).trans
        (Frames.putGiven (by decide) _ _)
  have htype : Members.find fields "type" = Members.find schema "type" := by
    rw [Members.find, hframes.get? _ (by decide) (unmarked_of_head (by simp)), ← Members.find,
      Schema.find_carriedFields schema (by decide)]
  rw [Entries.get?_put_self, htype]

/-- Whether a parameter of the address is accepted is a matter of the type of its schema. -/
theorem isSome_acceptParameter? {property : String × Members} {a a' : Annotations}
    {parameter : String × Members} (h : addressParameter property a = .ok (parameter, a')) :
    parameter.1 = property.1
      ∧ (Schema.acceptParameter? parameter.2).isSome
        = Schema.acceptsType (Members.find property.2 "type") := by
  obtain ⟨fields, _, hfields, hresult⟩ := Pass.bind_eq_ok.mp h
  cases hresult
  refine ⟨rfl, ?_⟩
  have hplain : Unmarked "type" := unmarked_of_head (by simp)
  -- Annotations are put later and leave the type as it is.
  have htype : Entries.get? fields "type" = Entries.get? (addressFields property.2) "type" := by
    rw [← get?_unannotated fields hplain, unannotated_annotateMembers hfields,
      get?_unannotated _ hplain]
  rw [get?_type_addressFields] at htype
  have hkept : ∀ (accepted : Bool) (m : Members),
      (if (!accepted) = true then none else some m).isSome = accepted := by
    intro accepted m
    cases accepted <;> rfl
  unfold Schema.acceptParameter? Schema.acceptsType
  dsimp only
  rw [Members.find, Entries.has, htype, Option.getD_some, Option.isSome_some, Bool.true_and, hkept]
  cases (Members.find property.2 "type").isVacant with
  | true =>
    rw [if_pos rfl, Bool.true_or]
    decide
  | false => rfl

/-- Which names are accepted, as a question about each parameter. -/
theorem mem_keys_acceptParameters (parameters : List (String × Members)) (name : String) :
    name ∈ (Schema.acceptParameters parameters).map (·.1)
      ↔ (name, true) ∈ parameters.map fun parameter =>
          (parameter.1, (Schema.acceptParameter? parameter.2).isSome) := by
  simp only [Schema.acceptParameters, List.mem_map, List.mem_filterMap, Option.map_eq_some_iff,
    Prod.mk.injEq, Option.isSome_iff_exists]
  constructor
  · rintro ⟨_, ⟨parameter, hmem, fields, hfields, rfl⟩, rfl⟩
    exact ⟨parameter, hmem, rfl, fields, hfields⟩
  · rintro ⟨parameter, hmem, rfl, fields, hfields⟩
    exact ⟨_, ⟨parameter, hmem, fields, hfields, rfl⟩, rfl⟩

/-- A schema whose properties are not vacant is an object. -/
theorem eq_obj_of_schemaMembers {schema : Value} {members : Members}
    (h : schemaMembers schema = .ok members)
    (hgiven : ¬ (Members.find members "properties").isVacant = true) : schema = .obj members := by
  unfold schemaMembers at h
  split at h
  · cases h
    exact absurd rfl hgiven
  · exact Value.members_eq_ok h

/-- **The names of the parameters that a declaration has**: the properties of the schema that are
objects of accepted types. -/
theorem mem_addressParameters_iff {schema : Value} {a a' : Annotations} {v : Option Value}
    (h : addressParameters schema a = .ok (v, a')) :
    ∃ parameters : Members, (v.getD .null).given? = partOf parameters
      ∧ ∀ name, name ∈ Entries.keys parameters ↔ ∃ members properties fields,
          schema = .obj members ∧ Members.find members "properties" = .obj properties
          ∧ (name, .obj fields) ∈ properties
          ∧ Schema.acceptsType (Members.find fields "type") = true := by
  obtain ⟨members, hmembers, hcases⟩ := addressParameters_cases h
  rcases hcases with ⟨hvacant, rfl, _⟩ | ⟨hgiven, properties, parameters, hobj, hparameters, rfl⟩
  · refine ⟨[], rfl, fun name => ⟨nofun, ?_⟩⟩
    rintro ⟨_, properties, fields, rfl, hproperties, hmem, _⟩
    rw [schemaMembers_obj] at hmembers
    cases hmembers
    rw [hproperties, Value.isVacant, List.isEmpty_iff] at hvacant
    rw [hvacant] at hmem
    cases hmem
  · have hschema : schema = .obj members := eq_obj_of_schemaMembers hmembers hgiven
    -- Name and acceptance of each parameter are those of its property.
    have hseen : parameters.map (fun parameter =>
          (parameter.1, (Schema.acceptParameter? parameter.2).isSome))
        = (objectProperties properties).map fun property =>
            (property.1, Schema.acceptsType (Members.find property.2 "type")) :=
      Pass.map_eq_map_of_mapM (fun property b parameter b' hparameter => by
        obtain ⟨hname, haccepted⟩ := isSome_acceptParameter? hparameter
        rw [hname, haccepted]) hparameters
    refine ⟨(Schema.acceptParameters parameters).map fun parameter =>
      (parameter.1, .obj parameter.2), rfl, fun name => ?_⟩
    rw [Entries.keys, List.map_map]
    refine (mem_keys_acceptParameters parameters name).trans ?_
    rw [hseen, List.mem_map]
    constructor
    · rintro ⟨⟨_, fields⟩, hmem, heq⟩
      obtain ⟨rfl, haccepted⟩ := Prod.mk.inj heq
      exact ⟨members, properties, fields, hschema, hobj, mem_objectProperties_iff.mp hmem,
        haccepted⟩
    · rintro ⟨other, others, fields, hother, hothers, hmem, haccepted⟩
      cases hschema.symm.trans hother
      cases hobj.symm.trans hothers
      exact ⟨(name, fields), mem_objectProperties_iff.mpr hmem, by rw [haccepted]⟩

/-- The parameters that an operation brings along are its path parameters. -/
theorem Inserts.mem_parameters_iff {version : Version} {project : Project} {mediaType : Value}
    {e : Endpoint} {i : Insertion} (h : Inserts version project mediaType e i) {name : String} :
    name ∈ Entries.keys i.parameters ↔ e.HasPathParameter name := by
  obtain ⟨_, _, hdeclared⟩ := h.declared
  obtain ⟨schema, _, _, _, hread, hpath, hpart⟩ := (methodParts hdeclared).path
  obtain ⟨parameters, hgiven, hnames⟩ := mem_addressParameters_iff hpath
  have hparameters : i.parameters = parameters := by
    unfold Insertion.parameters Members.find
    rw [hpart, hgiven]
    cases parameters <;> rfl
  rw [hparameters, hnames]
  constructor
  · rintro ⟨members, properties, fields, rfl, hproperties⟩
    exact ⟨members, properties, fields, hread, hproperties⟩
  · rintro ⟨members, properties, fields, hother, hproperties⟩
    cases hread.symm.trans hother
    exact ⟨members, properties, fields, rfl, hproperties⟩

/-! ## The parameters of a resource

A tree for some insertions has known parameters at each of its resources: of those that were brought
there, the ones whose names occur in the name of the resource. -/

/-- **The names of the parameters that move to a resource**: those that operations bring along to it
and that occur in its name. -/
theorem mem_parametersAt_iff {insertions : List Insertion} {path : List String} {name : String} :
    name ∈ Entries.keys (parametersAt insertions path)
      ↔ ∃ i ∈ insertions, i.segments = path ∧ name ∈ Entries.keys i.parameters
          ∧ ∃ label, labelOf path = some label ∧ name.toList <:+: label.toList := by
  -- At one resource: the label decides which parameters stay.
  have hhoisted : ∀ parameters : Members,
      name ∈ Entries.keys (hoisted (labelOf path) parameters)
        ↔ name ∈ Entries.keys parameters
          ∧ ∃ label, labelOf path = some label ∧ name.toList <:+: label.toList := by
    intro parameters
    cases labelOf path with
    | none => simp [hoisted, Entries.keys]
    | some label =>
      simp only [hoisted, Entries.keys, List.mem_map, List.mem_filter, Option.some.injEq,
        exists_eq_left', Value.isWithin_iff]
      constructor
      · rintro ⟨parameter, ⟨hmem, hwithin⟩, rfl⟩
        exact ⟨⟨parameter, hmem, rfl⟩, hwithin⟩
      · rintro ⟨⟨parameter, hmem, rfl⟩, hwithin⟩
        exact ⟨parameter, ⟨hmem, hwithin⟩, rfl⟩
  rw [parametersAt, Entries.keys_ofList, List.mem_eraseDups, List.map_flatMap, List.mem_flatMap]
  constructor
  · rintro ⟨i, hi, hname⟩
    obtain ⟨hmem, hsegments⟩ := List.mem_filter.mp hi
    exact ⟨i, hmem, beq_iff_eq.mp hsegments, (hhoisted i.parameters).mp hname⟩
  · rintro ⟨i, hmem, hsegments, hname⟩
    exact ⟨i, List.mem_filter.mpr ⟨hmem, beq_iff_eq.mpr hsegments⟩,
      (hhoisted i.parameters).mpr hname⟩

/-- What a tree for some insertions has as parameters of a resource, also where there is none. -/
theorem TreeFor.parameters_eq {insertions : List Insertion} {tree : Members}
    (h : TreeFor insertions [] (.obj tree)) (path : List String) :
    entryAt path "uriParameters" (.obj tree) = partOf (parametersAt insertions path) := by
  unfold entryAt
  cases hfound : resourceAt path (.obj tree) with
  | some resource => exact (h.resource path resource hfound).parameters
  | none =>
    have hpath : path ≠ [] := by
      rintro rfl
      cases hfound
    -- No insertion leads to where there is no resource, so nothing is brought there.
    have hnone : insertions.filter (·.segments == path) = [] := by
      refine List.filter_eq_nil_iff.mpr fun i hi hsegments => ?_
      have hreached : Reached insertions path :=
        Or.inr ⟨i, hi, beq_iff_eq.mp hsegments ▸ List.prefix_rfl⟩
      have hsome := (h.reached path hpath).mpr hreached
      rw [hfound] at hsome
      cases hsome
    rw [parametersAt, hnone]
    rfl

/-! ## The parameters of a definition

From the tree to the definition, and from names to declarations. -/

/-- A definition declares a parameter at the resource of a path. -/
def DeclaresParameter (data : Members) (path : List String) (name : String) : Prop :=
  ∃ parameters, entryAt path "uriParameters" (.obj data) = some (.obj parameters)
    ∧ name ∈ Entries.keys parameters

/-- A definition declares the parameters that stand at its resource. -/
theorem declaresParameter_iff_of_entryAt {data parameters : Members} {path : List String}
    (h : entryAt path "uriParameters" (.obj data) = partOf parameters) {name : String} :
    DeclaresParameter data path name ↔ name ∈ Entries.keys parameters := by
  unfold DeclaresParameter
  rw [h]
  constructor
  · rintro ⟨others, hothers, hname⟩
    cases parameters with
    | nil => cases hothers
    | cons =>
      cases hothers
      exact hname
  · intro hname
    cases parameters with
    | nil => cases hname
    | cons first rest => exact ⟨first :: rest, rfl, hname⟩

section

variable {version : Version} {project : Project} {data : Members} {mediaType : Value}
  {ordered : List Endpoint} {insertions : List Insertion} {head tree : Members}
  (h : DefinitionParts version project data mediaType ordered insertions head tree)
  (hmethods : project.MethodsLowered)
  (hslashes : ∀ e ∈ project.endpoints, e.request.method.startsWith "/" = false)

include h hmethods hslashes

/-- A finished definition has the parameters of all resources, also of the one at its top. -/
theorem entryAt_uriParameters (path : List String) :
    entryAt path "uriParameters" (.obj data) = partOf (parametersAt insertions path) := by
  have htree := (treeFor_definition h hmethods hslashes).parameters_eq
  by_cases hpath : path = []
  · subst hpath
    have hplain : Unmarked "uriParameters" := unmarked_of_head (by simp)
    have htop : Entries.get? tree "uriParameters" = partOf (parametersAt insertions []) := htree []
    show Entries.get? data "uriParameters" = _
    rw [h.toMadeOf.get? _ hplain (by decide), h.toFrames.get? _ (by decide) hplain, htop]
    cases parametersAt insertions [] <;> rfl
  · rw [h.toMadeOf.entryAt_eq h.toFrames hpath, htree]

/-- **What a definition declares**: at each resource the parameters of the operations there that
occur in its name. -/
theorem declaresParameter_iff {path : List String} {name : String} :
    DeclaresParameter data path name ↔ ∃ e ∈ project.endpoints, segmentsOf e.request.path = path
      ∧ e.HasPathParameter name
      ∧ ∃ segment, path.getLast? = some segment ∧ segment ≠ ""
        ∧ name.toList <:+: segment.toList := by
  rw [declaresParameter_iff_of_entryAt (entryAt_uriParameters h hmethods hslashes path),
    mem_parametersAt_iff]
  simp only [labelOf_eq_some_iff, and_assoc]
  constructor
  · rintro ⟨i, hi, hsegments, hname, hlabel⟩
    obtain ⟨e, he, hinserts⟩ := h.exists_endpoint hi
    exact ⟨e, he, hinserts.segments.symm.trans hsegments, hinserts.mem_parameters_iff.mp hname,
      hlabel⟩
  · rintro ⟨e, he, hsegments, hname, hlabel⟩
    obtain ⟨i, hi, hinserts⟩ := h.exists_insertion he
    exact ⟨i, hi, hinserts.segments.trans hsegments, hinserts.mem_parameters_iff.mpr hname,
      hlabel⟩

end

/-- **Path parameters are declared where their operations end**, if no method begins with a slash.
An exporter that wrote a project holds a definition in which

* a path parameter of an operation is declared at the resource of its path, if it is the last
  segment there;
* no more is declared at a resource than the path parameters of operations whose paths lead to it,
  those of them that occur in its segment.

The methods are in lower case like those of every project that was read
(`methodsLowered_of_shape`). -/
theorem pathParameters_declared {exporter : Exporter} {project : Project} {form text : String}
    (h : ((exporter.load project).write form).2 = .ok text) (hmethods : project.MethodsLowered)
    (hslashes : ∀ e ∈ project.endpoints, e.request.method.startsWith "/" = false) :
    ∃ data, ((exporter.load project).write form).1.data = some data
      ∧ (∀ e ∈ project.endpoints, ∀ name, e.HasPathParameter name →
          (segmentsOf e.request.path).getLast? = some ("\x7b" ++ name ++ "\x7d") →
          DeclaresParameter data (segmentsOf e.request.path) name)
      ∧ ∀ path name, DeclaresParameter data path name ↔
          ∃ e ∈ project.endpoints, segmentsOf e.request.path = path
            ∧ e.HasPathParameter name
            ∧ ∃ segment, path.getLast? = some segment ∧ segment ≠ ""
              ∧ name.toList <:+: segment.toList := by
  obtain ⟨data, hdefinition, hdata⟩ := Exporter.exists_definition h
  obtain ⟨mediaType, ordered, insertions, head, tree, hparts⟩ := definitionParts hdefinition
  refine ⟨data, hdata, ?_, fun path name => declaresParameter_iff hparts hmethods hslashes⟩
  intro e he name hname hlast
  have hletters : ("\x7b" ++ name ++ "\x7d").toList = ['\x7b'] ++ name.toList ++ ['\x7d'] := by
    rw [String.toList_append, String.toList_append]
    rfl
  refine (declaresParameter_iff hparts hmethods hslashes).mpr
    ⟨e, he, rfl, hname, _, hlast, fun hempty => ?_, ?_⟩
  · rw [hempty] at hletters
    cases hletters
  · rw [hletters]
    exact List.infix_append _ _ _

/-! ### A parameter at the end of a path, and one on the way

Both operations have a parameter in their path. The first one ends at it, and the second goes on
behind it. -/

/-- What has the parameter of `identifier` among its path parameters. -/
theorem hasPathParameter_identifier {e : Endpoint}
    (h : e.request.read .pathParams = .ok identifier) : e.HasPathParameter "id" :=
  ⟨_, _, [("type", .str "string"), ("collectionFormat", .str "csv")], h, rfl,
    List.mem_cons_self, by decide⟩

/-- The parameter of a pet is declared where the path of the operation ends. -/
theorem pathParameters_declared_pet :
    ∃ data, (((Exporter.mk .v10 none none).load petProject).write "yaml").1.data = some data
      ∧ DeclaresParameter data ["pets", "\x7bid\x7d"] "id"
      ∧ ¬ DeclaresParameter data ["pets"] "id" := by
  have hwritten : ∃ text, (((Exporter.mk .v10 none none).load petProject).write "yaml").2
      = .ok text := Outcome.exists_of_isSome (by decide +kernel)
  obtain ⟨text, hwritten⟩ := hwritten
  have hlowered : findPet.request.Lowered := ⟨"get", by decide +kernel⟩
  have hslash : findPet.request.method.startsWith "/" = false := by
    show "get".startsWith "/" = false
    simp
  obtain ⟨data, hdata, hends, hiff⟩ := pathParameters_declared hwritten
    (List.forall_mem_singleton.mpr hlowered) (List.forall_mem_singleton.mpr hslash)
  refine ⟨data, hdata, ?_, fun hdeclared => ?_⟩
  · exact hends findPet List.mem_cons_self "id" (hasPathParameter_identifier read_identifier)
      (by decide)
  · -- No operation ends at the resource above.
    obtain ⟨e, he, hsegments, _⟩ := (hiff ["pets"] "id").mp hdeclared
    obtain rfl := List.mem_singleton.mp he
    revert hsegments
    decide

/-- An operation with a parameter on the way to its resource. -/
def findPosts : Endpoint where
  request := ({ path := "/users/\x7bid\x7d/posts", method := "get" } : Request).setPathParams
    identifier

def postsProject : Project where
  endpoints := [findPosts]

/-- **A parameter on the way is lost**: it is a segment of the path, but no resource declares it. -/
theorem pathParameter_lost :
    findPosts.HasPathParameter "id" ∧ findPosts.request.path.startsWith "/" = true
      ∧ "\x7bid\x7d" ∈ segmentsOf findPosts.request.path
      ∧ ∃ data, definition .v10 postsProject = .ok data
        ∧ ∀ path, ¬ DeclaresParameter data path "id" := by
  have hdefinition : ∃ data, definition .v10 postsProject = .ok data :=
    Outcome.exists_of_isSome (by decide +kernel)
  obtain ⟨data, hdefinition⟩ := hdefinition
  obtain ⟨mediaType, ordered, insertions, head, tree, hparts⟩ := definitionParts hdefinition
  have hlowered : findPosts.request.Lowered := ⟨"get", by decide +kernel⟩
  have hslash : findPosts.request.method.startsWith "/" = false := by
    show "get".startsWith "/" = false
    simp
  refine ⟨hasPathParameter_identifier read_identifier, ?_, by decide, data, hdefinition, ?_⟩
  · show "/users/\x7bid\x7d/posts".startsWith "/" = true
    simp
  intro path hdeclared
  obtain ⟨e, he, rfl, _, segment, hlast, _, hwithin⟩ :=
    (declaresParameter_iff hparts (List.forall_mem_singleton.mpr hlowered)
      (List.forall_mem_singleton.mpr hslash)).mp hdeclared
  obtain rfl := List.mem_singleton.mp he
  -- The only operation ends at a resource whose name does not have the parameter in it.
  have hposts : (segmentsOf findPosts.request.path).getLast? = some "posts" := by decide
  cases hposts.symm.trans hlast
  revert hwithin
  decide

end Ramlify.Raml
