import Ramlify.Proofs.Lowercase
import Ramlify.Proofs.LoweredMethods
import Ramlify.Proofs.Raml.ReferenceOrigin
import Ramlify.Proofs.Raml.SchemeKinds
import Ramlify.Proofs.StoredRequest

/-!
# Ramlify — references to security schemes resolve

Schemes are declared in the head of a definition, and operations refer to them far below. Nothing
that is done to a definition in between, or afterwards, takes the declarations away or brings
references to other schemes in.

* **`declaredSchemes_eq`** — a finished definition has all declarations of schemes.
* **`entryAt_of_data`** — what stands at the place of an operation comes from the tree of resources.
* **`references_resolve`** — the references in a definition are those of its operations, and each of
  them leads to a declaration of its kind.
-/

namespace Ramlify

/-- The reference of an operation to the scheme of a kind, if it has one. -/
def Endpoint.reference? (e : Endpoint) (schemes : SecuritySchemes) (kind : SchemeKind) :
    Option Value :=
  e.securedBy.bind fun required => Raml.reference? required schemes kind

/-- Whether an operation requires a scheme of a kind. -/
def Endpoint.requires (e : Endpoint) (kind : SchemeKind) : Bool :=
  e.securedBy.any fun required => required.requires kind

/-- An operation refers to a scheme that it requires and that there is. -/
theorem Endpoint.reference?_isSome_iff {e : Endpoint} {schemes : SecuritySchemes}
    {kind : SchemeKind} :
    (e.reference? schemes kind).isSome ↔ e.requires kind = true ∧ schemes.SetUp kind := by
  unfold reference? requires
  cases e.securedBy with
  | none => simp
  | some required => exact Raml.reference?_isSome_iff

end Ramlify

namespace Ramlify.Raml

/-- The references of an operation are those to the schemes of all kinds. -/
theorem securityReferences_eq (project : Project) (e : Endpoint) :
    securityReferences project e
      = SchemeKind.all.filterMap (e.reference? project.environment.securitySchemes) := by
  unfold securityReferences Endpoint.reference?
  cases e.securedBy with
  | none => rfl
  | some required => exact securedBy_eq required _

/-- The references of a declaration are those of its operation. -/
theorem references_of_methodParts {version : Version} {project : Project} {mediaType : Value}
    {e : Endpoint} {m : Members} (h : MethodParts version project mediaType e m)
    {references : List Value} (hreferences : referencesOf? (.obj m) = some references) :
    references = securityReferences project e := by
  unfold referencesOf? at hreferences
  dsimp only at hreferences
  rw [h.securedBy] at hreferences
  unfold Value.given? at hreferences
  split at hreferences
  · next heq =>
    split at heq
    · cases heq
    · cases heq
      exact (Option.some.inj hreferences).symm
  · cases hreferences

/-! ## The declarations of a definition

The declarations stand in the head under one name. No operation writes there, because no method is
called so. -/

/-- The declarations of security schemes that a definition has: the members of a map, or those of a
list of maps. -/
def declaredSchemes (version : Version) (data : Members) : Members :=
  match version, Entries.get? data "securitySchemes" with
  | .v10, some (.obj declared) => declared
  | .v08, some (.list declared) => declared.flatMap fun
      | .obj named => named
      | _ => []
  | _, _ => []

section

variable {version : Version} {project : Project} {data : Members} {mediaType : Value}
  {ordered : List Endpoint} {insertions : List Insertion} {head tree : Members}
  (h : DefinitionParts version project data mediaType ordered insertions head tree)
  (hmethods : project.MethodsLowered)

include h hmethods

/-- No operation stands under a name with a capital. -/
theorem insertion_key_ne {name : String} (hname : ∃ c ∈ name.toList, 65 ≤ c.toNat ∧ c.toNat ≤ 90) :
    ∀ i ∈ insertions, i.key ≠ name := by
  intro i hi
  obtain ⟨e, he, hinserts⟩ := h.exists_endpoint hi
  obtain ⟨s, hs⟩ := hmethods e he
  rw [hinserts.key, hs]
  exact Unicode.lower_ne hname s

/-- **A finished definition has all declarations of schemes.** -/
theorem declaredSchemes_eq :
    declaredSchemes version data
      = schemeDeclarations version project.environment.securitySchemes := by
  -- At the top of the tree stand only resources, methods and parameters, none of them under this
  -- name.
  have htree : Entries.get? tree "securitySchemes" = none := by
    refine Entries.get?_eq_none_iff.mpr fun hmem => ?_
    obtain ⟨_, hafter, _, htop⟩ := insertAll_top h.built
    cases hafter
    rcases htop _ hmem with hbefore | ⟨i, hi, hkey⟩ | hparameters | ⟨segment, hsegment⟩
    · cases hbefore
    · exact insertion_key_ne h hmethods ⟨'S', by decide, by decide⟩ i hi hkey.symm
    · exact absurd hparameters (by decide)
    · exact resourceKey_ne (by simp) segment hsegment.symm
  have hdata := h.get? "securitySchemes" (unmarked_of_head (by simp)) (by decide)
  rw [htree, Option.none_or, h.schemes, securitySchemes?_eq] at hdata
  show declarationsIn version (Entries.get? data "securitySchemes") = _
  rw [hdata, declarationsIn_given?]

/-- What stands at the place of an operation comes from the tree of resources. -/
theorem entryAt_of_data {e : Endpoint} (he : e ∈ project.endpoints)
    (hplain : Unmarked e.request.method) {v : Value}
    (hv : entryAt (segmentsOf e.request.path) e.request.method (.obj data) = some v) :
    entryAt (segmentsOf e.request.path) e.request.method (.obj tree) = some v := by
  cases hsegments : segmentsOf e.request.path with
  | nil =>
    -- The operation stands at the top, so no member of the head is found under its method.
    obtain ⟨i, hi, hinserts⟩ := h.exists_insertion he
    have hparameters : ∀ i ∈ insertions, i.key ≠ "uriParameters" :=
      insertion_key_ne h hmethods ⟨'P', by decide, by decide⟩
    have hkept := (insertAll_kept hparameters h.built).2 i hi (hinserts.segments.trans hsegments)
    have hcapital : e.request.method ≠ "annotationTypes" := hinserts.key ▸
      insertion_key_ne h hmethods ⟨'T', by decide, by decide⟩ i hi
    rw [hinserts.key, ← Entries.isSome_get?_iff] at hkept
    obtain ⟨w, hw⟩ := Option.isSome_iff_exists.mp hkept
    rw [hsegments] at hv
    have hdata : Entries.get? data e.request.method = some v := hv
    rw [h.get? _ hplain hcapital, hw, Option.some_or] at hdata
    exact hw.trans (Option.filter_eq_some_iff.mp hdata).1
  | cons segment segments =>
    rwa [hsegments, h.toMadeOf.entryAt_eq h.toFrames (List.cons_ne_nil _ _)] at hv

omit hmethods in
/-- All references in the tree are those of an operation at their place. -/
theorem referencesFrom_tree :
    references.FoundFrom (fun path key found => ∃ e ∈ project.endpoints,
        segmentsOf e.request.path = path ∧ e.request.method = key
          ∧ found = securityReferences project e)
      (.obj tree) :=
  h.foundFrom
    (fun _ _ hinserts => by
      obtain ⟨_, _, hmethod⟩ := hinserts.declared
      exact references_unread (methodParts hmethod))
    fun _ _ _ hmethod _ hfound => references_of_methodParts hmethod hfound

end

/-! ## References resolve

A reference is made from a scheme of the project, and the same scheme is declared. That it has the
right type has to be said with a condition: of two schemes with one name only one is declared. -/

/-- A reference to a scheme of some kind that leads somewhere: to a declaration, and to one of its
kind if no two schemes have one name. -/
structure LeadsTo (version : Version) (schemes : SecuritySchemes) (data : Members)
    (kind : SchemeKind) (r : Value) : Prop where
  declared : ∃ name, referenceName? r = some name
    ∧ name ∈ Entries.keys (declaredSchemes version data)
  type : schemes.names.Nodup → ∃ name fields, referenceName? r = some name
    ∧ Entries.get? (declaredSchemes version data) name = some (.obj fields)
    ∧ Entries.get? fields "type" = some (.str (kind.type version))

/-- Every reference of an operation leads somewhere. -/
theorem leadsTo_of_reference? {version : Version} {schemes : SecuritySchemes} {data : Members}
    (hdata : declaredSchemes version data = schemeDeclarations version schemes) {e : Endpoint}
    {kind : SchemeKind} {r : Value} (hr : e.reference? schemes kind = some r) :
    LeadsTo version schemes data kind r := by
  obtain ⟨required, _, hrequired⟩ := Option.bind_eq_some_iff.mp hr
  obtain ⟨name, d, hname, hdeclared⟩ := declared?_of_reference? version hrequired
  constructor
  · refine ⟨name, hname, ?_⟩
    rw [hdata]
    exact mem_schemeDeclarations_of_declared? hdeclared
  · intro hnames
    obtain ⟨fields, rfl, htype⟩ := type_of_declared? hdeclared
    refine ⟨name, fields, hname, ?_, htype⟩
    rw [hdata]
    exact get?_schemeDeclarations hnames hdeclared

/-- What stands in a definition for an operation: a declaration of it, without its parameters. -/
def DeclarationOf (version : Version) (project : Project) (e : Endpoint) (v : Value) : Prop :=
  ∃ mediaType a a' declared, methodOf version project mediaType e a = .ok (declared, a')
    ∧ v = .obj (Entries.erase declared "uriParameters")

/-- Whether a member at the place of an operation is a method. One that is called like an annotation
is a method only if the operation is declared there; otherwise it is that annotation. -/
def MethodOf (version : Version) (project : Project) (e : Endpoint) (v : Value) : Prop :=
  Unmarked e.request.method ∨ DeclarationOf version project e v

/-- The references of a declaration are those of its operation. -/
theorem DeclarationOf.references {version : Version} {project : Project} {e : Endpoint} {v : Value}
    (h : DeclarationOf version project e v) {references : List Value}
    (hreferences : referencesOf? v = some references) :
    references = securityReferences project e := by
  obtain ⟨_, _, _, declared, hdeclared, rfl⟩ := h
  rw [referencesOf?_congr (Entries.get?_erase_of_ne declared (by decide))] at hreferences
  exact references_of_methodParts (methodParts hdeclared) hreferences

/-- **References to security schemes resolve.** An exporter that wrote a project holds a definition
in which every method has the references of an operation at its place: one for each kind of scheme
that the operation requires and that there is, and each of them leads to a declaration of its kind.
The methods are in lower case like those of every project that was read
(`methodsLowered_of_shape`). -/
theorem references_resolve {exporter : Exporter} {project : Project} {form text : String}
    (h : ((exporter.load project).write form).2 = .ok text) (hmethods : project.MethodsLowered) :
    ∃ data, ((exporter.load project).write form).1.data = some data
      ∧ ∀ e ∈ project.endpoints, ∀ method references,
          entryAt (segmentsOf e.request.path) e.request.method (.obj data) = some method →
          MethodOf exporter.version project e method →
          referencesOf? method = some references →
          ∃ owner ∈ project.endpoints,
            segmentsOf owner.request.path = segmentsOf e.request.path
            ∧ owner.request.method = e.request.method
            ∧ references = SchemeKind.all.filterMap
                (owner.reference? project.environment.securitySchemes)
            ∧ ∀ kind,
                ((owner.reference? project.environment.securitySchemes kind).isSome
                  ↔ owner.requires kind = true ∧ project.environment.securitySchemes.SetUp kind)
                ∧ ∀ r, owner.reference? project.environment.securitySchemes kind = some r →
                    LeadsTo exporter.version project.environment.securitySchemes data kind r := by
  obtain ⟨data, hdefinition, hdata⟩ := Exporter.exists_definition h
  obtain ⟨mediaType, ordered, insertions, head, tree, hparts⟩ := definitionParts hdefinition
  refine ⟨data, hdata, ?_⟩
  intro e he method references hfound hmethod hreferences
  obtain ⟨owner, howner, hsegments, hkey, rfl⟩ : ∃ owner ∈ project.endpoints,
      segmentsOf owner.request.path = segmentsOf e.request.path
        ∧ owner.request.method = e.request.method
        ∧ references = securityReferences project owner := by
    rcases hmethod with hplain | hdeclared
    · -- The member stands in the tree, and references there come from the operation that was
      -- inserted.
      have htree := entryAt_of_data hparts hmethods he hplain hfound
      obtain ⟨resource, hresource, hentry⟩ := Option.bind_eq_some_iff.mp htree
      exact (referencesFrom_tree hparts _ resource hresource).origin _ method
        references hplain hentry hreferences
    · exact ⟨e, he, rfl, rfl, hdeclared.references hreferences⟩
  exact ⟨owner, howner, hsegments, hkey, securityReferences_eq project owner, fun kind =>
    ⟨owner.reference?_isSome_iff, fun r hr =>
      leadsTo_of_reference? (declaredSchemes_eq hparts hmethods) hr⟩⟩

/-! ### A requirement that no scheme meets

An operation that requires schemes of all kinds, in a project whose scheme with name and password
has no name: nothing is declared for it and nothing refers to it. -/

/-- An operation that requires schemes of all kinds. -/
def securedEndpoint : Endpoint where
  securedBy := some { oauth2 := some ["read"], basic := true, apiKey := true }
  request := { path := "/pets", method := "get" }

/-- A project without a name for its scheme with name and password. -/
def securedProject : Project where
  endpoints := [securedEndpoint]
  environment := { securitySchemes := { oauth2 := some {}, basic := some {},
                                        apiKey := some { query := [{ name := "key" }] } } }

/-- The references that are made. -/
def securedReferences : List Value :=
  [.obj [("oauth2", .obj [("scopes", .list [.str "read"])])], .str "apiKey"]

/-- The declaration of the operation. -/
def securedMethod : Members := [("securedBy", .list securedReferences)]

/-- The definition of the project, without what is vacant. -/
def securedDefinition : Members :=
  [("securitySchemes", .list
      [.obj [("oauth2", .obj [("type", .str "OAuth 2.0"),
        ("settings", .obj [("accessTokenUri", .str ""), ("authorizationGrants", .list [])])])],
       .obj [("apiKey", .obj [("type", .str "x-api-key"),
        ("describedBy", .obj [("queryParameters", .obj
          [("key", .obj [("type", .str "string")])])])])]]),
   ("/pets", .obj [("displayName", .str "pets"), ("get", .obj securedMethod)])]

set_option maxRecDepth 100000 in
/-- The definition of the project, by computation. -/
theorem definition_secured : definition .v08 securedProject = .ok securedDefinition := by
  have hheaders : securedEndpoint.request.read .headers = .ok (.obj []) := Request.parse_emptyObject
  have hquery : securedEndpoint.request.read .query = .ok (.obj []) := Request.parse_emptyObject
  have hpath : securedEndpoint.request.read .pathParams = .ok (.obj []) := Request.parse_emptyObject
  have hmethod : methodOf .v08 securedProject (.str "") securedEndpoint { enabled := false }
      = .ok (securedMethod, { enabled := false }) := by
    unfold methodOf addExchange
    dsimp only
    rw [hheaders, hquery, hpath]
    rfl
  have hresources : resources .v08 securedProject (.str "") { enabled := false }
      = .ok ([("/pets", .obj [("displayName", .str "pets"), ("get", .obj securedMethod)])],
          { enabled := false }) :=
    resources_of_ungrouped rfl (Pass.bind_eq_ok.mpr ⟨_, _, addOperation_eq_ok hmethod rfl, rfl⟩)
  exact Eq.trans (definition_of_resources rfl hresources rfl rfl rfl) rfl

/-- Two of the three schemes that are required are referred to, and both are declared. -/
theorem references_resolve_secured :
    ∃ data, (((Exporter.mk .v08 none none).load securedProject).write "yaml").1.data = some data
      ∧ referencesOf? (.obj securedMethod) = some securedReferences
      ∧ entryAt ["pets"] "get" (.obj data) = some (.obj securedMethod)
      ∧ ∃ owner ∈ securedProject.endpoints,
          securedReferences = SchemeKind.all.filterMap
            (owner.reference? securedProject.environment.securitySchemes)
          ∧ ∀ kind r, owner.reference? securedProject.environment.securitySchemes kind = some r →
              LeadsTo .v08 securedProject.environment.securitySchemes data kind r := by
  have hwritten : (((Exporter.mk .v08 none none).load securedProject).write "yaml").2
      = .ok (document .v08 securedDefinition) := by
    unfold Exporter.write Exporter.load
    dsimp only
    rw [definition_secured]
    rfl
  have hlowered : securedEndpoint.request.Lowered := ⟨"get", by decide +kernel⟩
  have hdefinition : definition (Exporter.mk .v08 none none).version securedProject
      = .ok securedDefinition := definition_secured
  have hheld := Exporter.data_write hdefinition "yaml"
  obtain ⟨data, hdata, hresolve⟩ :=
    references_resolve hwritten (List.forall_mem_singleton.mpr hlowered)
  -- The exporter holds the definition that was computed.
  obtain rfl : securedDefinition = data := Option.some.inj (hheld.symm.trans hdata)
  have hsegments : segmentsOf securedEndpoint.request.path = ["pets"] := rfl
  have hentry : entryAt ["pets"] "get" (.obj securedDefinition) = some (.obj securedMethod) := rfl
  obtain ⟨owner, howner, _, _, hreferences, hkinds⟩ := hresolve securedEndpoint
    List.mem_cons_self _ securedReferences (hsegments.symm ▸ hentry)
    (Or.inl (unmarked_of_head (by decide))) rfl
  exact ⟨_, hdata, rfl, hentry, owner, howner, hreferences, fun kind => (hkinds kind).2⟩

end Ramlify.Raml
