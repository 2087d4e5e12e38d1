import Ramlify.Proofs.Postman.Merging
import Ramlify.Proofs.Raml.ResourceTree
import Ramlify.Raml.Method

/-!
# Ramlify — the declaration of an imported operation

An imported operation is written without failing, and it leaves no annotations. The lemmas follow a
property of a schema on its way into a RAML parameter: the references of its schema are turned into
types (`typed_properties`: there are none, whatever the properties are called), its fields are
picked (`carriedFields_property`) and its type is accepted.

* **`methodOf_imported`** — the declaration of an imported operation, part by part.
-/

namespace Ramlify.Raml

open Postman (AreProperties IsDefault Operation membersOf objectSchema property)

/-! ## Parameters

A property of an imported part has a type and a default, and nothing else. It is not changed by the
search for references, both fields are carried over, and its type is accepted. -/

/-- The fields of a parameter: its type, and its default unless that is null. -/
def parameterFields (type : String) : Value → Members
  | .null => [("type", .str type)]
  | default => [("type", .str type), ("default", default)]

/-- The default of a property. -/
def defaultIn (property : Value) : Value := Members.find (membersOf property) "default"

/-- Properties as parameters of type string. -/
def textParameters (properties : Members) : Members :=
  properties.map fun pair => (pair.1, .obj (parameterFields "string" (defaultIn pair.2)))

/-- The default of a property is its default. -/
theorem defaultIn_property (type : String) (default : Value) :
    defaultIn (property type default) = default := rfl

theorem typed_property {type : String} {default : Value} (h : IsDefault default) :
    Schema.typed (property type default) = property type default := by
  unfold property
  rw [Schema.typed]
  split
  · rcases h with rfl | ⟨s, rfl⟩ <;> rfl
  · rcases h with rfl | ⟨s, rfl⟩ <;> rfl

/-- A map of properties has no references: its members are objects, whatever their names. -/
theorem typedMembers_properties {types : List String} {properties : Members}
    (h : AreProperties types properties) :
    ∀ before : Members, Schema.typedMembers false before properties
      = Entries.putAll before properties := by
  induction properties with
  | nil =>
    intro before
    rw [Schema.typedMembers]
    rfl
  | cons entry rest ih =>
    intro before
    obtain ⟨name, v⟩ := entry
    obtain ⟨type, _, default, hdefault, rfl⟩ := h name v List.mem_cons_self
    -- A property may be called `$ref` or `title`: only texts under such names are meant.
    have hplain : Schema.referenceOf? name (property type default) = none := rfl
    have hkept : ((name == "type" && false) || Schema.isLeftOut name (property type default))
        = false := by
      rw [Bool.and_false, Bool.false_or]
      rfl
    rw [Schema.typedMembers, hplain]
    dsimp only
    rw [if_neg (by rw [hkept]; exact Bool.false_ne_true), typed_property hdefault,
      ih fun other w hw => h other w (List.mem_cons_of_mem _ hw), Entries.putAll_cons]

/-- Under every name stands an object, so properties never pass for a text. -/
theorem isText_find_properties {types : List String} {properties : Members}
    (h : AreProperties types properties) (name text : String) :
    (Members.find properties name).isText text = false := by
  unfold Members.find
  cases hget : Entries.get? properties name with
  | none => rfl
  | some v =>
    obtain ⟨type, _, default, _, rfl⟩ := h name v (Entries.mem_of_get? hget)
    rfl

/-- **Nothing in a map of properties is a reference.** -/
theorem typed_properties {types : List String} {properties : Members}
    (h : AreProperties types properties) (hnodup : (Entries.keys properties).Nodup) :
    Schema.typed (.obj properties) = .obj properties := by
  rw [Schema.typed, if_neg (by rw [isText_find_properties h]; exact Bool.false_ne_true),
    typedMembers_properties h]
  exact congrArg Value.obj (Entries.ofList_of_nodup hnodup)

theorem objectProperties_eq {types : List String} {properties : Members}
    (h : AreProperties types properties) :
    objectProperties properties = properties.map fun pair => (pair.1, membersOf pair.2) := by
  induction properties with
  | nil => rfl
  | cons entry rest ih =>
    obtain ⟨name, v⟩ := entry
    obtain ⟨type, _, default, _, rfl⟩ := h name v List.mem_cons_self
    have hrest := ih fun other w hw => h other w (List.mem_cons_of_mem _ hw)
    exact congrArg (List.cons (name, membersOf (property type default))) hrest

/-- The fields of a property that a parameter has. -/
theorem carriedFields_property {type : String} {default : Value} (h : IsDefault default) :
    Schema.carriedFields (membersOf (property type default)) = parameterFields type default := by
  rcases h with rfl | ⟨s, rfl⟩ <;> rfl

theorem acceptParameter_parameterFields {type : String} (htype : type ∈ ["string", "file"])
    {default : Value} (h : IsDefault default) :
    Schema.acceptParameter? (parameterFields type default)
      = some (parameterFields type default) := by
  simp only [List.mem_cons, List.not_mem_nil, or_false] at htype
  rcases htype with rfl | rfl <;> rcases h with rfl | ⟨s, rfl⟩ <;> rfl

/-- Parameters that are each accepted as they are. -/
theorem acceptParameters_eq {parameters : List (String × Members)}
    (h : ∀ parameter ∈ parameters, Schema.acceptParameter? parameter.2 = some parameter.2) :
    Schema.acceptParameters parameters = parameters := by
  induction parameters with
  | nil => rfl
  | cons parameter rest ih =>
    have hrest := ih fun other hother => h other (List.mem_cons_of_mem _ hother)
    unfold Schema.acceptParameters at hrest ⊢
    rw [List.filterMap_cons, h parameter List.mem_cons_self, hrest]
    rfl

/-- The parameters of type string that properties give are accepted as they are. -/
theorem accepted_carriedFields {properties : Members} (h : AreProperties ["string"] properties) :
    accepted (properties.map fun pair => (pair.1, Schema.carriedFields (membersOf pair.2)))
      = .obj (textParameters properties) := by
  have hfields : properties.map (fun pair => (pair.1, Schema.carriedFields (membersOf pair.2)))
      = properties.map fun pair => (pair.1, parameterFields "string" (defaultIn pair.2)) := by
    refine List.map_congr_left fun pair hpair => ?_
    obtain ⟨type, htype, default, hdefault, heq⟩ := h pair.1 pair.2 hpair
    rw [List.mem_singleton.mp htype] at heq
    rw [heq, carriedFields_property hdefault, defaultIn_property]
  -- Each of them has a type that is accepted, which is that of its property.
  have haccepted : ∀ parameter ∈ properties.map
      (fun pair => (pair.1, parameterFields "string" (defaultIn pair.2))),
        Schema.acceptParameter? parameter.2 = some parameter.2 := by
    intro parameter hparameter
    obtain ⟨pair, hpair, rfl⟩ := List.mem_map.mp hparameter
    obtain ⟨type, _, default, hdefault, heq⟩ := h pair.1 pair.2 hpair
    rw [heq]
    exact acceptParameter_parameterFields List.mem_cons_self hdefault
  rw [hfields, accepted, acceptParameters_eq haccepted, Schema.parameterMap, List.map_map]
  rfl

/-! ### Headers

Headers are read as named parameters: nothing of an imported part is required, so none of them is
marked. -/

/-- A property becomes a parameter of its own name. -/
theorem namedParameter_property {name : String} {default : Value} (h : IsDefault default) :
    namedParameter (.list []) (name, membersOf (property "string" default))
      = .ok (name, Schema.carriedFields (membersOf (property "string" default))) := by
  rcases h with rfl | ⟨s, rfl⟩ <;> rfl

/-- The headers of an imported operation: all of them, in their order. -/
theorem namedParameters_objectSchema {properties : Members}
    (h : AreProperties ["string"] properties) (hnodup : (Entries.keys properties).Nodup) :
    namedParameters (objectSchema properties) = .ok (partOf (textParameters properties)) := by
  cases properties with
  | nil => rfl
  | cons entry rest =>
    have hmapped : (objectProperties (entry :: rest)).mapM (namedParameter (.list []))
        = .ok ((entry :: rest).map fun pair =>
          (pair.1, Schema.carriedFields (membersOf pair.2))) := by
      rw [objectProperties_eq h, List.mapM_map]
      refine Outcome.mapM_eq_ok fun pair hpair => ?_
      obtain ⟨type, htype, default, hdefault, heq⟩ := h pair.1 pair.2 hpair
      rw [List.mem_singleton.mp htype] at heq
      show namedParameter (.list []) (pair.1, membersOf pair.2)
        = .ok (pair.1, Schema.carriedFields (membersOf pair.2))
      rw [heq]
      exact namedParameter_property hdefault
    -- There are properties, so the schema is read: references, then parameters, then their types.
    show namedParametersOf [("type", .str "object"), ("properties", .obj (entry :: rest)),
      ("required", .list [])] = _
    unfold namedParametersOf
    show ((Schema.typed (.obj (entry :: rest))).members >>= fun properties => _) = _
    rw [typed_properties h hnodup]
    show ((objectProperties (entry :: rest)).mapM (namedParameter (.list [])) >>= _) = _
    rw [hmapped]
    show Except.ok (some (accepted _)) = _
    rw [accepted_carriedFields h]
    rfl

/-! ### Query and path

Query and path parameters are made by a pass that could write annotations. An imported property has
no members that would become some. -/

/-- A property becomes a parameter and leaves no annotation. -/
theorem addressParameter_property {name : String} {default : Value} (h : IsDefault default)
    (a : Annotations) :
    addressParameter (name, membersOf (property "string" default)) a
      = .ok ((name, Schema.carriedFields (membersOf (property "string" default))), a) := by
  rcases h with rfl | ⟨s, rfl⟩ <;> rfl

/-- The query or path parameters of an imported operation: all of them, in their order, and no
annotations. -/
theorem addressParameters_objectSchema {properties : Members}
    (h : AreProperties ["string"] properties) (a : Annotations) :
    addressParameters (objectSchema properties) a
      = .ok (partOf (textParameters properties), a) := by
  cases properties with
  | nil => rfl
  | cons entry rest =>
    -- Each property gives a parameter, and the record of annotations stays as it is.
    have hmapped : (objectProperties (entry :: rest)).mapM addressParameter a
        = .ok ((entry :: rest).map fun pair =>
          (pair.1, Schema.carriedFields (membersOf pair.2)), a) := by
      rw [objectProperties_eq h, List.mapM_map]
      refine Pass.mapM_eq_ok fun pair hpair => ?_
      obtain ⟨type, htype, default, hdefault, heq⟩ := h pair.1 pair.2 hpair
      rw [List.mem_singleton.mp htype] at heq
      show addressParameter (pair.1, membersOf pair.2) a
        = .ok ((pair.1, Schema.carriedFields (membersOf pair.2)), a)
      rw [heq]
      exact addressParameter_property hdefault a
    have hrest : (do return some (accepted
        (← (objectProperties (entry :: rest)).mapM addressParameter)) : Pass (Option Value)) a
          = .ok (partOf (textParameters (entry :: rest)), a) := by
      refine Pass.bind_eq_ok.mpr ⟨_, a, hmapped, ?_⟩
      rw [accepted_carriedFields h]
      rfl
    exact hrest

/-! ## Forms

A form field may be a file. RAML 0.8 declares form parameters, and RAML 1.0 properties that are told
to be optional. -/

/-- The type of a form field: a text or a file. -/
def formType (property : Value) : String :=
  if (Members.find (membersOf property) "type").isText "binary" then "file" else "string"

/-- The fields of a form parameter; RAML 1.0 has to be told that it is optional. -/
def formFields (version : Version) (type : String) (default : Value) : Members :=
  match version with
  | .v08 => parameterFields type default
  | .v10 => parameterFields type default ++ [("required", .bool false)]

/-- The form parameter that a property becomes. -/
def formFieldsOf (version : Version) (property : Value) : Members :=
  formFields version (formType property) (defaultIn property)

/-- The member that holds the parameters of a form. -/
def formName : Version → String
  | .v08 => "formParameters"
  | .v10 => "properties"

/-- The body of a form with some properties. -/
def formBody (version : Version) (properties : Members) : Value :=
  .obj [(formName version, .obj (properties.map fun pair =>
    (pair.1, .obj (formFieldsOf version pair.2))))]

theorem mem_formTypes (property : Value) : formType property ∈ ["string", "file"] := by
  unfold formType
  split
  · exact List.mem_cons_of_mem _ List.mem_cons_self
  · exact List.mem_cons_self

/-- A property as a form parameter of RAML 0.8. -/
theorem formParameter_property {name type : String} (htype : type ∈ ["string", "binary"])
    {default : Value} (h : IsDefault default) :
    Version.formParameter (.list []) (name, property type default)
      = .ok (name, formFieldsOf .v08 (property type default)) := by
  simp only [List.mem_cons, List.not_mem_nil, or_false] at htype
  rcases htype with rfl | rfl <;> rcases h with rfl | ⟨s, rfl⟩ <;> rfl

/-- A property as a property of a form in RAML 1.0, before it is told that it is optional. -/
theorem formField_property {name type : String} (htype : type ∈ ["string", "binary"])
    {default : Value} (h : IsDefault default) :
    Version.formField (name, property type default) = .ok (name,
      .obj (parameterFields (formType (property type default)) default)) := by
  simp only [List.mem_cons, List.not_mem_nil, or_false] at htype
  rcases htype with rfl | rfl <;> rcases h with rfl | ⟨s, rfl⟩ <;> rfl

/-- Without a list of required properties each field is marked as optional. -/
theorem spreadEach_formFields {types : List String} {properties : Members}
    (h : AreProperties types properties) :
    Schema.spreadEach [] (properties.map fun pair =>
        (pair.1, .obj (parameterFields (formType pair.2) (defaultIn pair.2))))
      = properties.map fun pair => (pair.1, .obj (formFieldsOf .v10 pair.2)) := by
  induction properties with
  | nil => rfl
  | cons entry rest ih =>
    obtain ⟨name, v⟩ := entry
    obtain ⟨type, _, default, hdefault, rfl⟩ := h name v List.mem_cons_self
    have hmarked : Schema.spreadProperty [] name
        (.obj (parameterFields (formType (property type default)) default))
          = .obj (formFieldsOf .v10 (property type default)) := by
      rcases hdefault with rfl | ⟨s, rfl⟩ <;> rfl
    rw [List.map_cons, Schema.spreadEach,
      ih fun other w hw => h other w (List.mem_cons_of_mem _ hw)]
    dsimp only
    rw [defaultIn_property, hmarked]
    rfl

/-- The body of an imported form: all fields, in their order. -/
theorem form_objectSchema (version : Version) {properties : Members}
    (h : AreProperties ["string", "binary"] properties) :
    version.form (objectSchema properties) = .ok (formBody version properties) := by
  have hproperties : Version.propertiesOf (membersOf (objectSchema properties))
      = .ok properties := by
    cases properties with
    | nil => rfl
    | cons entry rest => rfl
  cases version with
  | v08 =>
    -- RAML 0.8 checks the types of form parameters, so files must have become files by then.
    have hmapped : properties.mapM (Version.formParameter (.list []))
        = .ok (properties.map fun pair => (pair.1, formFieldsOf .v08 pair.2)) := by
      refine Outcome.mapM_eq_ok fun pair hpair => ?_
      obtain ⟨type, htype, default, hdefault, heq⟩ := h pair.1 pair.2 hpair
      show Version.formParameter (.list []) (pair.1, pair.2)
        = .ok (pair.1, formFieldsOf .v08 pair.2)
      rw [heq]
      exact formParameter_property htype hdefault
    have haccepted :
        ∀ parameter ∈ properties.map (fun pair => (pair.1, formFieldsOf .v08 pair.2)),
        Schema.acceptParameter? parameter.2 = some parameter.2 := by
      intro parameter hparameter
      obtain ⟨pair, hpair, rfl⟩ := List.mem_map.mp hparameter
      obtain ⟨type, _, default, hdefault, heq⟩ := h pair.1 pair.2 hpair
      refine acceptParameter_parameterFields (mem_formTypes pair.2) ?_
      rw [heq]
      exact hdefault
    show (Version.propertiesOf (membersOf (objectSchema properties)) >>= fun properties => _) = _
    rw [hproperties]
    show (properties.mapM (Version.formParameter (.list [])) >>= _) = _
    rw [hmapped]
    show Except.ok (Value.obj [("formParameters",
      Schema.parameterMap (Schema.acceptParameters _))]) = _
    rw [acceptParameters_eq haccepted, Schema.parameterMap, List.map_map]
    rfl
  | v10 =>
    -- RAML 1.0 marks the fields as optional after they have been made.
    have hmapped : properties.mapM Version.formField = .ok (properties.map fun pair =>
        (pair.1, .obj (parameterFields (formType pair.2) (defaultIn pair.2)))) := by
      refine Outcome.mapM_eq_ok fun pair hpair => ?_
      obtain ⟨type, htype, default, hdefault, heq⟩ := h pair.1 pair.2 hpair
      show Version.formField (pair.1, pair.2) = .ok (pair.1,
        .obj (parameterFields (formType pair.2) (defaultIn pair.2)))
      rw [heq]
      exact formField_property htype hdefault
    show (Version.propertiesOf (membersOf (objectSchema properties)) >>= fun properties => _) = _
    rw [hproperties]
    show (properties.mapM Version.formField >>= _) = _
    rw [hmapped]
    show Except.ok (Value.obj [("properties", .obj (Schema.spreadEach [] _))]) = _
    rw [spreadEach_formFields h]
    rfl

/-- The media type of the form that a data mode stands for. -/
def formTypeOf? (mode : Value) : Option String :=
  if mode.isText "urlencoded" then some "application/x-www-form-urlencoded"
  else if mode.isText "params" then some "multipart/form-data"
  else none

/-- A data mode of a form stands for one media type. -/
theorem mediaTypes_form {mode : Value} {type : String} (h : formTypeOf? mode = some type) :
    Postman.mediaTypes mode = [type] ∧ type ∈ formTypes := by
  unfold formTypeOf? at h
  unfold Postman.mediaTypes
  split at h
  · next hmode =>
    cases h
    exact ⟨if_pos hmode, by decide⟩
  · next hmode =>
    rw [if_neg hmode]
    split at h
    · next hparams =>
      cases h
      exact ⟨if_pos hparams, by decide⟩
    · cases h

theorem mediaTypes_other {mode : Value} (h : formTypeOf? mode = none) :
    Postman.mediaTypes mode = ["text/plain"] := by
  unfold formTypeOf? at h
  unfold Postman.mediaTypes
  split at h
  · cases h
  · next hmode =>
    rw [if_neg hmode]
    split at h
    · cases h
    · next hparams => exact if_neg hparams

/-! ## Bodies

Only the body of a form is declared: a text has no schema that could be shown. -/

/-- The body of an imported operation: that of a form, where its method has a body. -/
def importedBody (version : Version) (o : Operation) : Option Value :=
  if o.method ∈ bodiedMethods then
    (formTypeOf? o.mode).map fun type =>
      .obj [(type, formBody version (Entries.ofList o.fields))]
  else none

/-- What a form is mapped to; its fields are read from the text in which they were stored. -/
theorem mappedBody_form {version : Version} {o : Operation} (h : o.Tidy) {type : String}
    (htype : type ∈ formTypes) :
    mappedBody version o.endpoint.request.body type
      = .ok (some (formBody version (Entries.ofList o.fields))) := by
  have hform := form_objectSchema version h.fields.ofList
  have htyped : Schema.typed (objectSchema (Entries.ofList o.fields))
      = objectSchema (Entries.ofList o.fields) := by
    show Value.obj [("type", .str "object"),
      ("properties", Schema.typed (.obj (Entries.ofList o.fields))), ("required", .list [])] = _
    rw [typed_properties h.fields.ofList (Entries.nodup_keys_ofList _)]
    rfl
  -- No form is JSON, which is looked for first.
  have hjson : type ≠ "application/json" := by
    rintro rfl
    revert htype
    decide
  unfold mappedBody
  rw [if_neg hjson, if_pos htype, Operation.parse_body h]
  show (version.form (Schema.typed (objectSchema (Entries.ofList o.fields))) >>= _) = _
  rw [htyped, hform]
  rfl

/-- The body of a form under its media type. -/
theorem requestBody_form {version : Version} {o : Operation} (h : o.Tidy) {type : String}
    (htype : type ∈ formTypes) :
    requestBody version o.endpoint.request.body type
      = .ok (some (.obj [(type, formBody version (Entries.ofList o.fields))])) := by
  have hstored : (Members.find o.endpoint.request.body "body").isVacant = false :=
    Request.isEmpty_stored (Postman.storable_objectSchema h.fields) (Postman.kind_objectSchema _)
  have hgiven : type.isEmpty = false := by
    simp only [formTypes, List.mem_cons, List.not_mem_nil, or_false] at htype
    rcases htype with rfl | rfl <;> rfl
  unfold requestBody
  rw [hstored, hgiven]
  show (mappedBody version o.endpoint.request.body type >>= _) = _
  rw [mappedBody_form h htype]
  rfl

/-- Bodies of other modes are not supported. -/
theorem requestBody_other (version : Version) (entry : Members) :
    requestBody version entry "text/plain" = .ok none := by
  unfold requestBody
  split
  · rfl
  · rfl

/-- The body of an imported operation, by its method and its data mode. -/
theorem operationBody_imported (version : Version) (mediaType : Value) {o : Operation}
    (h : o.Tidy) :
    operationBody version mediaType o.endpoint = .ok (importedBody version o) := by
  unfold operationBody importedBody
  show (if o.method ∈ bodiedMethods then requestBody version o.endpoint.request.body
    (mediaTypeFor (Postman.mediaTypes o.mode) mediaType) else .ok none) = _
  split
  · cases htype : formTypeOf? o.mode with
    | none =>
      rw [mediaTypes_other htype]
      exact requestBody_other version _
    | some type =>
      obtain ⟨htypes, hform⟩ := mediaTypes_form htype
      rw [htypes]
      exact requestBody_form h hform
  · rfl

/-! ## Operations

The parts of a declaration put together. -/

/-- The declaration of an imported operation. -/
def importedMethod (version : Version) (o : Operation) : Members :=
  let m := version.addDisplayName [] (.str o.name)
  let m := Members.putGiven m "body" ((importedBody version o).getD .null)
  let m := Members.putGiven m "headers" ((partOf (textParameters o.headers)).getD .null)
  let m := Members.putGiven m "queryParameters" ((partOf (textParameters o.query)).getD .null)
  Members.putGiven m "uriParameters"
    ((partOf (textParameters (Entries.ofList o.pathParams))).getD .null)

/-- An imported operation is introduced by its name alone. -/
theorem introduction_imported (version : Version) (traits : List Trait) (o : Operation)
    (a : Annotations) :
    introduction version traits o.endpoint a
      = .ok (version.addDisplayName [] (.str o.name), a) := rfl

/-- Body, headers, query and path parameters are put one after another, where there are any. -/
theorem addExchange_imported (version : Version) (mediaType : Value) {o : Operation} (h : o.Tidy)
    (m : Members) (a : Annotations) :
    addExchange version mediaType o.endpoint m a =
      .ok (Members.putGiven (Members.putGiven (Members.putGiven (Members.putGiven m "body"
        ((importedBody version o).getD .null))
        "headers" ((partOf (textParameters o.headers)).getD .null))
        "queryParameters" ((partOf (textParameters o.query)).getD .null))
        "uriParameters"
          ((partOf (textParameters (Entries.ofList o.pathParams))).getD .null), a) := by
  have hheaders := namedParameters_objectSchema h.headers h.headerNames
  have hquery := addressParameters_objectSchema h.query a
  have hpath := addressParameters_objectSchema h.pathParams.ofList a
  unfold addExchange
  refine Pass.bind_eq_ok.mpr
    ⟨_, a, Pass.lift_eq_ok.mpr ⟨operationBody_imported version mediaType h, rfl⟩, ?_⟩
  refine Pass.bind_eq_ok.mpr ⟨_, a, Pass.lift_eq_ok.mpr ⟨Operation.read_headers h, rfl⟩, ?_⟩
  refine Pass.bind_eq_ok.mpr ⟨_, a, Pass.lift_eq_ok.mpr ⟨hheaders, rfl⟩, ?_⟩
  -- An imported operation documents no responses.
  refine Pass.bind_eq_ok.mpr ⟨[], a, rfl, ?_⟩
  refine Pass.bind_eq_ok.mpr ⟨_, a, Pass.lift_eq_ok.mpr ⟨Operation.read_query h, rfl⟩, ?_⟩
  refine Pass.bind_eq_ok.mpr ⟨_, a, hquery, ?_⟩
  refine Pass.bind_eq_ok.mpr ⟨_, a, Pass.lift_eq_ok.mpr ⟨Operation.read_pathParams h, rfl⟩, ?_⟩
  exact Pass.bind_eq_ok.mpr ⟨_, a, hpath, rfl⟩

/-- **The declaration of an imported operation**, part by part. -/
theorem methodOf_imported (version : Version) (project : Project) (mediaType : Value)
    {o : Operation} (h : o.Tidy) (a : Annotations) :
    methodOf version project mediaType o.endpoint a = .ok (importedMethod version o, a) := by
  unfold methodOf
  refine Pass.bind_eq_ok.mpr ⟨_, a, introduction_imported version project.traits o a, ?_⟩
  refine Pass.bind_eq_ok.mpr ⟨_, a, addExchange_imported version mediaType h _ a, ?_⟩
  rfl

/-! ## What is read of the declaration

Each part of the declaration is found under its name, since the parts have different names. -/

/-- Parameters that are shown have something in them. -/
theorem partOf_given {members : Members} : ∀ w ∈ partOf members, w.isVacant = false := by
  intro w hw
  unfold partOf at hw
  split at hw
  · cases hw
  · next hgiven =>
    cases hw
    exact Bool.eq_false_iff.mpr hgiven

/-- A body that is shown has something in it. -/
theorem importedBody_given {version : Version} {o : Operation} :
    ∀ w ∈ importedBody version o, w.isVacant = false := by
  intro w hw
  unfold importedBody at hw
  split at hw
  · obtain ⟨type, _, rfl⟩ := Option.map_eq_some_iff.mp hw
    rfl
  · cases hw

/-- An operation is introduced by its name alone, as its name or as its description. -/
theorem addDisplayName_cases (version : Version) (name : String) :
    version.addDisplayName [] (.str name) = []
      ∨ ∃ member ∈ ["displayName", "description"],
        version.addDisplayName [] (.str name) = [(member, .str name)] := by
  unfold Version.addDisplayName
  split
  · exact Or.inl rfl
  · cases version with
    | v10 => exact Or.inr ⟨"displayName", by simp, rfl⟩
    | v08 => exact Or.inr ⟨"description", by simp, rfl⟩

section

variable (version : Version) (o : Operation)

/-- A name to be shown stands under one of two names, and nothing under any other. -/
theorem get?_addDisplayName {member : String} (h : member ∉ ["displayName", "description"]) :
    Entries.get? (version.addDisplayName [] (.str o.name)) member = none := by
  rcases addDisplayName_cases version o.name with heq | ⟨other, hother, heq⟩
  · rw [heq]
    rfl
  · rw [heq, Entries.get?_cons, if_neg (by rintro rfl; exact h hother)]
    rfl

theorem get?_body_importedMethod :
    Entries.get? (importedMethod version o) "body" = importedBody version o := by
  unfold importedMethod
  dsimp only
  rw [Members.get?_putGiven_of_ne _ _ (by decide), Members.get?_putGiven_of_ne _ _ (by decide),
    Members.get?_putGiven_of_ne _ _ (by decide)]
  exact Members.get?_putGiven_self (get?_addDisplayName version o (by decide)) importedBody_given

theorem get?_headers_importedMethod :
    Entries.get? (importedMethod version o) "headers" = partOf (textParameters o.headers) := by
  unfold importedMethod
  dsimp only
  rw [Members.get?_putGiven_of_ne _ _ (by decide), Members.get?_putGiven_of_ne _ _ (by decide)]
  refine Members.get?_putGiven_self ?_ partOf_given
  rw [Members.get?_putGiven_of_ne _ _ (by decide), get?_addDisplayName version o (by decide)]

/-- The query parameters of the declaration. -/
theorem get?_queryParameters_importedMethod :
    Entries.get? (importedMethod version o) "queryParameters"
      = partOf (textParameters o.query) := by
  unfold importedMethod
  dsimp only
  rw [Members.get?_putGiven_of_ne _ _ (by decide)]
  refine Members.get?_putGiven_self ?_ partOf_given
  rw [Members.get?_putGiven_of_ne _ _ (by decide), Members.get?_putGiven_of_ne _ _ (by decide),
    get?_addDisplayName version o (by decide)]

/-- The path parameters of the declaration. -/
theorem get?_uriParameters_importedMethod :
    Entries.get? (importedMethod version o) "uriParameters"
      = partOf (textParameters (Entries.ofList o.pathParams)) := by
  unfold importedMethod
  dsimp only
  refine Members.get?_putGiven_self ?_ partOf_given
  rw [Members.get?_putGiven_of_ne _ _ (by decide), Members.get?_putGiven_of_ne _ _ (by decide),
    Members.get?_putGiven_of_ne _ _ (by decide), get?_addDisplayName version o (by decide)]

/-- The name of the declaration, if it is shown. -/
theorem get?_displayName_importedMethod :
    Entries.get? (importedMethod version o) "displayName" = none
      ∨ Entries.get? (importedMethod version o) "displayName" = some (.str o.name) := by
  unfold importedMethod
  dsimp only
  rw [Members.get?_putGiven_of_ne _ _ (by decide), Members.get?_putGiven_of_ne _ _ (by decide),
    Members.get?_putGiven_of_ne _ _ (by decide), Members.get?_putGiven_of_ne _ _ (by decide)]
  rcases addDisplayName_cases version o.name with heq | ⟨other, _, heq⟩
  · rw [heq]
    exact Or.inl rfl
  · rw [heq, Entries.get?_cons]
    split
    · exact Or.inr rfl
    · exact Or.inl rfl

/-- Each name of the declaration stands once. -/
theorem nodup_importedMethod : (Entries.keys (importedMethod version o)).Nodup := by
  have hnamed : (Entries.keys (version.addDisplayName [] (.str o.name))).Nodup := by
    rcases addDisplayName_cases version o.name with heq | ⟨other, _, heq⟩
    · rw [heq]
      exact List.nodup_nil
    · rw [heq]
      exact List.nodup_singleton other
  unfold importedMethod
  dsimp only
  exact Members.nodup_keys_putGiven (Members.nodup_keys_putGiven (Members.nodup_keys_putGiven
    (Members.nodup_keys_putGiven hnamed _ _) _ _) _ _) _ _

/-- No member of a declaration looks like a resource. -/
theorem not_isResource_importedMethod {name : String}
    (h : name ∈ Entries.keys (importedMethod version o)) : name.startsWith "/" = false := by
  -- The members that a declaration can have, from the last one put to the first.
  have hname : name ∈ ["uriParameters", "queryParameters", "headers", "body", "displayName",
      "description"] := by
    unfold importedMethod at h
    rcases Members.mem_keys_putGiven h with rfl | h
    · simp
    rcases Members.mem_keys_putGiven h with rfl | h
    · simp
    rcases Members.mem_keys_putGiven h with rfl | h
    · simp
    rcases Members.mem_keys_putGiven h with rfl | h
    · simp
    rcases addDisplayName_cases version o.name with heq | ⟨other, hother, heq⟩
    · rw [heq] at h
      cases h
    · rw [heq] at h
      rw [List.mem_singleton.mp h]
      exact List.mem_append_right ["uriParameters", "queryParameters", "headers", "body"] hother
  simp only [List.mem_cons, List.not_mem_nil, or_false] at hname
  rcases hname with rfl | rfl | rfl | rfl | rfl | rfl <;> simp

end

end Ramlify.Raml
