import Mathlib.Data.List.Forall2
import Ramlify.Proofs.Raml.AnnotatedTree
import Ramlify.Proofs.Raml.AnnotationSwitch
import Ramlify.Proofs.Raml.DisplayOrder
import Ramlify.Proofs.Raml.MethodParts
import Ramlify.Proofs.Text.Split
import Ramlify.Raml.Exporter

/-!
# Ramlify — the parts of a definition

A definition is a head with declarations and the tree of its resources, without the members that
have nothing in them. The tree is what the declarations of the operations are inserted to, one after
another; so all that is said of insertions can be said of definitions.

* **`insertions_of_resources`** — the tree of resources as insertions of declarations.
* **`definitionParts`** — where the members of a finished definition come from.
-/

namespace Ramlify.Raml

/-! ## The tree

The operations of a project are declared and inserted one after another, in the order in which they
are shown. What inserting does is known for insertions, which are places with methods; so the pass
over the operations is told as a list of insertions. -/

/-- A path with a slash leads to a resource. -/
theorem segmentsOf_ne_nil {path : String} (h : '/' ∈ path.toList) : segmentsOf path ≠ [] := by
  obtain ⟨rest, hrest⟩ := Text.exists_after?_of_mem h
  intro hnil
  rw [segmentsOf, Text.drop_split, hrest, List.map_eq_nil_iff] at hnil
  exact Text.split_ne_nil '/' rest hnil

/-- Two paths lead to one resource exactly if the texts after their first slashes are the same. -/
theorem segmentsOf_eq_iff {path other : String} : segmentsOf path = segmentsOf other
    ↔ Text.after? '/' path.toList = Text.after? '/' other.toList := by
  have hinjective : Function.Injective String.ofList := by
    intro cs ds hsame
    rw [← String.toList_ofList (l := cs), hsame, String.toList_ofList]
  rw [segmentsOf, segmentsOf, (List.map_injective_iff.mpr hinjective).eq_iff]
  exact Text.drop_split_eq_iff

/-- The declaration of an operation, with its place. It is made with annotations if the version has
any. -/
structure Inserts (version : Version) (project : Project) (mediaType : Value) (e : Endpoint)
    (i : Insertion) : Prop where
  segments : i.segments = segmentsOf e.request.path
  key : i.key = e.request.method
  made : ∃ a a', a.enabled = version.hasAnnotations
    ∧ methodOf version project mediaType e a = .ok (i.method, a')

/-- The declaration was made, with some annotations. -/
theorem Inserts.declared {version : Version} {project : Project} {mediaType : Value} {e : Endpoint}
    {i : Insertion} (h : Inserts version project mediaType e i) :
    ∃ a a', methodOf version project mediaType e a = .ok (i.method, a') := by
  obtain ⟨a, a', _, hmethod⟩ := h.made
  exact ⟨a, a', hmethod⟩

/-- Adding operations to a tree is inserting their declarations. -/
theorem insertions_of_operations {version : Version} {project : Project} {mediaType : Value}
    {operations : List Endpoint} {tree result : Value} {a a' : Annotations}
    (hswitch : a.enabled = version.hasAnnotations)
    (h : operations.foldlM (addOperation version project mediaType) tree a = .ok (result, a')) :
    ∃ insertions, List.Forall₂ (Inserts version project mediaType) operations insertions
      ∧ insertAll tree insertions = .ok result := by
  -- The tree and the record are those that the operations before have left.
  induction operations generalizing tree a with
  | nil =>
    cases h
    exact ⟨[], .nil, rfl⟩
  | cons e operations ih =>
    rw [List.foldlM_cons] at h
    obtain ⟨next, a₁, hnext, hrest⟩ := Pass.bind_eq_ok.mp h
    obtain ⟨method, a₂, hmethod, hplace⟩ := Pass.bind_eq_ok.mp hnext
    obtain ⟨hplaced, rfl⟩ := Pass.lift_eq_ok.mp hplace
    have hkept := (steady_methodOf _ _ _ _ _ _ _ hmethod).trans hswitch
    obtain ⟨insertions, hinserts, hrun⟩ := ih hkept hrest
    refine ⟨{ segments := segmentsOf e.request.path, key := e.request.method, method }
      :: insertions, .cons ⟨rfl, rfl, _, _, hswitch, hmethod⟩ hinserts, ?_⟩
    rw [insertAll, List.foldlM_cons, hplaced]
    exact hrun

/-- **The tree of resources**: the declarations of the operations, inserted in the order in which
they are shown. -/
theorem insertions_of_resources {version : Version} {project : Project} {mediaType : Value}
    {tree : Members} {a a' : Annotations} (hswitch : a.enabled = version.hasAnnotations)
    (h : resources version project mediaType a = .ok (tree, a')) :
    ∃ ordered insertions,
      inDisplayOrder project.environment.resourcesOrder.docs project.endpoints = .ok ordered
        ∧ List.Forall₂ (Inserts version project mediaType) ordered insertions
        ∧ insertAll (.obj []) insertions = .ok (.obj tree) := by
  unfold resources at h
  obtain ⟨ordered, a₁, hlift, h₁⟩ := Pass.bind_eq_ok.mp h
  obtain ⟨hordered, rfl⟩ := Pass.lift_eq_ok.mp hlift
  obtain ⟨result, a₂, hresult, h₂⟩ := Pass.bind_eq_ok.mp h₁
  obtain ⟨hmembers, rfl⟩ := Pass.lift_eq_ok.mp h₂
  rw [Value.members_eq_ok hmembers] at hresult
  obtain ⟨insertions, hinserts, hrun⟩ := insertions_of_operations hswitch hresult
  exact ⟨ordered, insertions, hordered, hinserts, hrun⟩

/-- Without display groups the operations are added in the order of the project. -/
theorem resources_of_ungrouped {version : Version} {project : Project} {mediaType : Value}
    {tree : Members} {a a' : Annotations}
    (hgroups : project.environment.resourcesOrder.docs = [])
    (h : project.endpoints.foldlM (addOperation version project mediaType) (.obj []) a
      = .ok (.obj tree, a')) :
    resources version project mediaType a = .ok (tree, a') := by
  refine Pass.bind_eq_ok.mpr ⟨project.endpoints, a, Pass.lift_eq_ok.mpr ⟨?_, rfl⟩,
    Pass.bind_eq_ok.mpr ⟨_, _, h, rfl⟩⟩
  rw [hgroups]
  exact inDisplayOrder_nil _

/-- An operation is added by placing its declaration. -/
theorem addOperation_eq_ok {version : Version} {project : Project} {mediaType tree result : Value}
    {e : Endpoint} {m : Members} {a a' : Annotations}
    (hmethod : methodOf version project mediaType e a = .ok (m, a'))
    (hplace : placeMethod tree (segmentsOf e.request.path) e.request.method (.obj m)
      = .ok result) : addOperation version project mediaType tree e a = .ok (result, a') :=
  Pass.bind_eq_ok.mpr ⟨m, a', hmethod, Pass.lift_eq_ok.mpr ⟨hplace, rfl⟩⟩

/-- At its top a tree has the keys of insertions, resources, and perhaps parameters. -/
theorem insertAll_top {tree : Members} {result : Value} {insertions : List Insertion}
    (h : insertAll (.obj tree) insertions = .ok result) :
    ∃ after : Members, result = .obj after
      ∧ ((Entries.keys tree).Nodup → (Entries.keys after).Nodup)
      ∧ ∀ name ∈ Entries.keys after, name ∈ Entries.keys tree ∨ (∃ i ∈ insertions, name = i.key)
          ∨ name = "uriParameters" ∨ ∃ segment, name = resourceKey segment := by
  induction insertions generalizing tree with
  | nil =>
    cases h
    exact ⟨tree, rfl, id, fun name hname => Or.inl hname⟩
  | cons i insertions ih =>
    obtain ⟨_, hinserted, hrest⟩ := insertAll_cons_eq_ok.mp h
    obtain ⟨middle, rfl, hmiddle, htop⟩ := insertMethod_top hinserted
    obtain ⟨after, rfl, hafter, hrestTop⟩ := ih hrest
    refine ⟨after, rfl, fun hnodup => hafter (hmiddle hnodup), fun name hname => ?_⟩
    -- A name at the top afterwards came with the first insertion, with a later one, or was there
    -- before.
    rcases hrestTop name hname with hbefore | ⟨j, hj, rfl⟩ | hother
    · rcases htop name hbefore with hfirst | rfl | hother
      · exact Or.inl hfirst
      · exact Or.inr (Or.inl ⟨i, List.mem_cons_self, rfl⟩)
      · exact Or.inr (Or.inr hother)
    · exact Or.inr (Or.inl ⟨j, List.mem_cons_of_mem _ hj, rfl⟩)
    · exact Or.inr (Or.inr hother)

/-- Insertions below the top bring nothing to it but resources. -/
theorem get?_insertAll_of_below {insertions : List Insertion}
    (hbelow : ∀ i ∈ insertions, i.segments ≠ []) {name : String}
    (hname : name.startsWith "/" = false) {tree after : Members}
    (h : insertAll (.obj tree) insertions = .ok (.obj after)) :
    Entries.get? after name = Entries.get? tree name := by
  induction insertions generalizing tree with
  | nil =>
    cases h
    rfl
  | cons i insertions ih =>
    obtain ⟨next, hinserted, hrest⟩ := insertAll_cons_eq_ok.mp h
    obtain ⟨hfirst, hothers⟩ := List.forall_mem_cons.mp hbelow
    obtain ⟨segment, segments, hsegments⟩ := List.exists_cons_of_ne_nil hfirst
    rw [hsegments, insertMethod] at hinserted
    obtain ⟨rfl, _⟩ := Prod.mk.inj hinserted
    rw [ih hothers hrest, Entries.get?_put_of_ne _ _ (resourceKey_ne hname segment)]

/-- An insertion takes no member away but parameters. -/
theorem insertMethod_kept {key : String} {method result : Value} {segments : List String}
    {tree : Members} (h : insertMethod key method segments (.obj tree) = (result, none)) :
    ∃ after : Members, result = .obj after
      ∧ (∀ name ∈ Entries.keys tree, name ≠ "uriParameters" → name ∈ Entries.keys after)
      ∧ (segments = [] → key ∈ Entries.keys after) := by
  cases segments with
  | cons segment segments =>
    rw [insertMethod] at h
    obtain ⟨hresult, _⟩ := Prod.mk.inj h
    exact ⟨_, hresult.symm, fun name hname _ => Entries.mem_keys_put.mpr (Or.inr hname),
      fun hsegments => absurd hsegments (List.cons_ne_nil _ _)⟩
  | nil =>
    obtain ⟨members, parameters, moved, rfl, -, -, rfl⟩ := insertHere_eq_none h
    refine ⟨_, rfl, fun name hname hne => ?_, fun _ => Entries.mem_keys_put.mpr (Or.inl rfl)⟩
    rw [← Entries.isSome_get?_iff, ← get?_withParameters_of_ne tree moved hne,
      Entries.isSome_get?_iff] at hname
    exact Entries.mem_keys_put.mpr (Or.inr hname)

/-- The keys of all insertions at the top stay there. -/
theorem insertAll_kept {insertions : List Insertion}
    (hkeys : ∀ i ∈ insertions, i.key ≠ "uriParameters") {tree after : Members}
    (h : insertAll (.obj tree) insertions = .ok (.obj after)) :
    (∀ name ∈ Entries.keys tree, name ≠ "uriParameters" → name ∈ Entries.keys after)
      ∧ ∀ i ∈ insertions, i.segments = [] → i.key ∈ Entries.keys after := by
  induction insertions generalizing tree with
  | nil =>
    cases h
    exact ⟨fun name hname _ => hname, List.forall_mem_nil _⟩
  | cons i insertions ih =>
    obtain ⟨_, hinserted, hrest⟩ := insertAll_cons_eq_ok.mp h
    obtain ⟨middle, rfl, hkept, hself⟩ := insertMethod_kept hinserted
    rw [List.forall_mem_cons] at hkeys
    obtain ⟨hrestKept, hrestSelf⟩ := ih hkeys.2 hrest
    refine ⟨fun name hname hne => hrestKept name (hkept name hname hne) hne, ?_⟩
    exact List.forall_mem_cons.mpr
      ⟨fun hsegments => hrestKept _ (hself hsegments) hkeys.1, hrestSelf⟩

/-! ## The head

The head is made step by step, and each step names the few members that it writes. What is read of
the head later was written by one step and spared by all others. -/

/-- The members of a head before the declarations. -/
def openingNames : List String :=
  ["title", "version", "baseUri", "mediaType", "protocols", "description", "documentation"]

/-- All members of a head but annotations. -/
def headNames : List String :=
  openingNames ++ ["securitySchemes", "types", "schemas", "traits"]

/-- The header writes some of the opening names. -/
theorem frames_header (version : Version) (project : Project) :
    Frames openingNames [] (header version project) := by
  show Frames openingNames [] (Members.putGiven (Entries.put (Members.putGiven
    (Entries.put (Entries.put [] "title" _) "version" _) "baseUri" _) "mediaType" _) "protocols" _)
  exact ((((Frames.put (by decide) _ _).trans (Frames.put (by decide) _ _)).trans
    (Frames.putGiven (by decide) _ _)).trans (Frames.put (by decide) _ _)).trans
    (Frames.putGiven (by decide) _ _)

section

variable {m m' : Members} {a a' : Annotations}

/-- A description writes one of two members, by version. -/
theorem frames_addDescription {version : Version} {description : String}
    (h : version.addDescription m description = .ok m') :
    Frames ["description", "documentation"] m m' := by
  unfold Version.addDescription at h
  split at h
  · cases h
    exact Frames.refl _ m
  · split at h
    · cases h
      exact Frames.put (by decide) m _
    · dsimp only at h
      split at h
      · cases h
        exact Frames.put (by decide) m _
      · cases h
        exact Frames.put (by decide) m _
      · cases h

/-- Sections are added to the documentation. -/
theorem frames_addSections {texts : List Section} (h : addSections texts m = .ok m') :
    Frames ["documentation"] m m' := by
  unfold addSections at h
  split at h
  · cases h
    exact Frames.refl _ m
  · dsimp only at h
    split at h
    · cases h
      exact Frames.put (by decide) m _
    · cases h
      exact Frames.put (by decide) m _
    · cases h

/-- What is said of the API is an annotation. -/
theorem frames_addApiInfo {env : Environment} (h : addApiInfo env m a = .ok (m', a'))
    (names : List String) : Frames names m m' := by
  obtain ⟨fields, a₁, _, hrest⟩ := Pass.bind_eq_ok.mp h
  exact Frames.annotateGiven hrest

/-- The page of documentation is an annotation. -/
theorem frames_addDocsPage {env : Environment} (h : addDocsPage env m a = .ok (m', a'))
    (names : List String) : Frames names m m' := by
  unfold addDocsPage at h
  cases hdocs : env.externalDocs with
  | none =>
    rw [hdocs] at h
    cases h
    exact Frames.refl _ m
  | some docs =>
    rw [hdocs] at h
    obtain ⟨fields, a₁, _, hrest⟩ := Pass.bind_eq_ok.mp h
    exact Frames.annotate hrest

/-- Extensions of the paths are annotations. -/
theorem frames_addPaths {extensions : Members} (h : addPaths extensions m a = .ok (m', a'))
    (names : List String) : Frames names m m' := by
  obtain ⟨fields, a₁, _, hrest⟩ := Pass.bind_eq_ok.mp h
  exact Frames.annotateGiven hrest

/-- The declarations of types stand under a name that depends on the version. -/
theorem frames_addTypes {version : Version} {schemas : List NamedSchema}
    (h : addTypes version schemas m = .ok m') : Frames ["types", "schemas"] m m' := by
  unfold addTypes at h
  split at h
  · cases h
    exact Frames.refl _ m
  · obtain ⟨declared, _, h⟩ := Outcome.bind_eq_ok.mp h
    cases h
    cases version <;> exact Frames.put (by decide) m _

/-- The declarations of traits stand under one name. -/
theorem frames_addTraits {version : Version} {mediaType : Value} {traits : List Trait}
    (h : addTraits version mediaType traits m = .ok m') : Frames ["traits"] m m' := by
  unfold addTraits at h
  split at h
  · cases h
    exact Frames.refl _ m
  · obtain ⟨declared, _, h⟩ := Outcome.bind_eq_ok.mp h
    cases h
    exact Frames.putGiven (by decide) m _

/-- Schemas are declared, if there are any, where nothing was declared before. -/
theorem get?_schemas_addTypes {version : Version} {schemas : List NamedSchema}
    (h : addTypes version schemas m = .ok m') (hnew : Entries.get? m version.schemasName = none) :
    ∃ declared, version.declareSchemas schemas = .ok declared
      ∧ Entries.get? m' version.schemasName = if schemas.isEmpty then none else some declared := by
  unfold addTypes at h
  split at h
  · next hempty =>
    cases h
    obtain rfl := List.isEmpty_iff.mp hempty
    cases version <;> exact ⟨_, rfl, hnew⟩
  · next hsome =>
    obtain ⟨declared, hdeclared, h⟩ := Outcome.bind_eq_ok.mp h
    cases h
    refine ⟨declared, hdeclared, ?_⟩
    rw [if_neg hsome]
    exact Entries.get?_put_self ..

/-- Traits are declared where nothing was declared before. -/
theorem get?_traits_addTraits {version : Version} {mediaType : Value} {traits : List Trait}
    (h : addTraits version mediaType traits m = .ok m') (hnew : Entries.get? m "traits" = none) :
    ∃ declared, traitDeclarations version (mediaTypeFor [] mediaType) traits = .ok declared
      ∧ Entries.get? m' "traits" = declared.given? := by
  unfold addTraits at h
  split at h
  · next hempty =>
    cases h
    refine ⟨version.noTraits, by rw [List.isEmpty_iff.mp hempty]; rfl, ?_⟩
    rw [hnew]
    cases version <;> rfl
  · obtain ⟨declared, hdeclared, h⟩ := Outcome.bind_eq_ok.mp h
    cases h
    exact ⟨declared, hdeclared, Members.get?_putGiven_of_new hnew declared⟩

/-- The declarations in a member of a definition: the members of a map, or those of a list of
maps. -/
def declarationsIn (version : Version) (member : Option Value) : Members :=
  match version, member with
  | .v10, some (.obj declared) => declared
  | .v08, some (.list declared) => declared.flatMap fun
      | .obj named => named
      | _ => []
  | _, _ => []

/-- **Declarations are read back from a definition**, also if there are none of them. -/
theorem declarationsIn_given? (version : Version) (declared : Members) :
    declarationsIn version ((version.declarations declared).given?.filter fun v => !v.isVacant)
      = declared := by
  cases declared with
  | nil => cases version <;> rfl
  | cons first rest =>
    cases version with
    | v10 => rfl
    | v08 =>
      show ((first :: rest).map fun d => Value.obj [d]).flatMap _ = first :: rest
      rw [List.flatMap_map]
      exact List.flatMap_singleton' _

/-- Schemes are declared unless there are none. -/
theorem securitySchemes?_eq (version : Version) (schemes : SecuritySchemes) :
    securitySchemes? version schemes
      = (version.declarations (schemeDeclarations version schemes)).given? := by
  unfold securitySchemes?
  cases schemeDeclarations version schemes with
  | nil => cases version <;> rfl
  | cons first rest => cases version <;> rfl

/-- Schemes that are declared are not left out. -/
theorem given?_securitySchemes (version : Version) (schemes : SecuritySchemes) :
    ((securitySchemes? version schemes).getD .null).given? = securitySchemes? version schemes := by
  unfold securitySchemes?
  cases schemeDeclarations version schemes with
  | nil => rfl
  | cons first rest => cases version <;> rfl

/-- The media type is the last member that the header writes but for the protocols. -/
theorem mediaType_header (version : Version) (project : Project) :
    Entries.get? (header version project) "mediaType"
      = some (version.mediaType project.environment.consumes project.environment.produces) := by
  show Entries.get? (Members.putGiven (Entries.put (Members.putGiven _ "baseUri" _) "mediaType" _)
    "protocols" _) "mediaType" = _
  rw [Members.get?_putGiven_of_ne _ _ (by decide), Entries.get?_put_self]

/-- A head has the media type and the declarations of the security schemes. -/
structure Heads (version : Version) (project : Project) (head : Members) : Prop
    extends Frames headNames [] head where
  media : Entries.get? head "mediaType"
    = some (version.mediaType project.environment.consumes project.environment.produces)
  schemes : Entries.get? head "securitySchemes"
    = securitySchemes? version project.environment.securitySchemes

/-- The opening of a head, where neither schemas nor traits are declared yet. -/
theorem heads_opening {version : Version} {project : Project}
    (h : opening version project a = .ok (m, a')) :
    Heads version project m ∧ ∀ name ∈ ["types", "schemas", "traits"],
      Entries.get? m name = none := by
  unfold opening at h
  obtain ⟨described, a₁, hlift, h₁⟩ := Pass.bind_eq_ok.mp h
  obtain ⟨hdescribed, rfl⟩ := Pass.lift_eq_ok.mp hlift
  obtain ⟨tagged, a₂, htagged, h₂⟩ := Pass.bind_eq_ok.mp h₁
  obtain ⟨informed, a₃, hinformed, h₃⟩ := Pass.bind_eq_ok.mp h₂
  obtain ⟨paged, a₄, hpaged, h₄⟩ := Pass.bind_eq_ok.mp h₃
  obtain ⟨sectioned, a₅, hlift, h₅⟩ := Pass.bind_eq_ok.mp h₄
  obtain ⟨hsectioned, rfl⟩ := Pass.lift_eq_ok.mp hlift
  -- What is written behind the header, step by step.
  have hafter : Frames ["description", "documentation"] (header version project) sectioned :=
    ((((frames_addDescription hdescribed).trans (Frames.annotateGiven htagged)).trans
      (frames_addApiInfo hinformed _)).trans (frames_addDocsPage hpaged _)).trans
      ((frames_addSections hsectioned).mono (by decide))
  have hbefore : Frames openingNames [] sectioned :=
    (frames_header version project).trans (hafter.mono (by decide))
  have hsecured : Frames ["securitySchemes"] sectioned m :=
    (Frames.putGiven (by decide) _ _).trans (frames_addPaths h₅ _)
  refine ⟨{ toFrames := ?_, media := ?_, schemes := ?_ }, ?_⟩
  · exact (hbefore.mono (by decide)).trans (hsecured.mono (by decide))
  · rw [hsecured.get? _ (by decide) (unmarked_of_head (by simp)),
      hafter.get? _ (by decide) (unmarked_of_head (by simp)), mediaType_header]
  · -- Before the security schemes nothing writes their name, so they are found as they are put.
    have hnew : Entries.get? sectioned "securitySchemes" = none :=
      hbefore.get? _ (by decide) (unmarked_of_head (by simp))
    rw [(frames_addPaths h₅ []).get? _ (by decide) (unmarked_of_head (by simp)),
      Members.get?_putGiven_of_new hnew, given?_securitySchemes]
  · intro name hname
    simp only [List.mem_cons, List.not_mem_nil, or_false] at hname
    rcases hname with rfl | rfl | rfl
    all_goals
      rw [hsecured.get? _ (by decide) (unmarked_of_head (by simp)),
        hbefore.get? _ (by decide) (unmarked_of_head (by simp))]
      rfl

end

/-! ## The definition

The tree is put behind the head, members with nothing in them are left out, and the declarations of
annotations are put between the two. All other members are found where they were. -/

/-- The order of resources, and all other members, are not affected by the declarations of
annotations. -/
theorem get?_withDeclarations_of_ne {m : Members} (hnodup : (Entries.keys m).Nodup)
    (written : Annotations) {name : String} (hname : name ≠ "annotationTypes") :
    Entries.get? (withDeclarations m written) name = Entries.get? m name := by
  unfold withDeclarations
  split
  · rfl
  · have hresources : (Entries.keys (m.filter isResource)).Nodup :=
      hnodup.sublist (List.filter_sublist.map _)
    have hread := Entries.get?_filter_keys m (·.startsWith "/") name
    have hother := Entries.get?_filter_keys m (!·.startsWith "/") name
    dsimp only
    rw [Entries.get?_putAll_of_nodup _ hresources, Entries.get?_put_of_ne _ _ hname.symm]
    show (Entries.get? (m.filter fun member => member.1.startsWith "/") name).or
      (Entries.get? (m.filter fun member => !member.1.startsWith "/") name) = _
    rw [hread, hother]
    cases name.startsWith "/" <;> simp

/-- The resources of a definition stay in their order. -/
theorem filter_isResource_withDeclarations {m : Members} (hnodup : (Entries.keys m).Nodup)
    (written : Annotations) :
    (withDeclarations m written).filter isResource = m.filter isResource := by
  unfold withDeclarations
  split
  · rfl
  · have hresources : (Entries.keys (m.filter isResource)).Nodup :=
      hnodup.sublist (List.filter_sublist.map _)
    -- In front of the resources stand members that are none, the declarations among them.
    have hbefore : ∀ v, (Entries.put (m.filter (!isResource ·)) "annotationTypes" v).filter
        isResource = [] := by
      intro v
      refine (Entries.filter_put _ (fun name : String => name.startsWith "/") _ _).trans ?_
      rw [if_neg (by simp)]
      refine List.filter_eq_nil_iff.mpr fun member hmember hslash => ?_
      have hplain := (List.mem_filter.mp hmember).2
      rw [isResource, hslash] at hplain
      cases hplain
    -- So filtering leaves the resources, put to nothing one after another.
    refine (Entries.filter_putAll _ _ fun name : String => name.startsWith "/").trans ?_
    show Entries.putAll ((Entries.put _ _ _).filter isResource)
      ((m.filter isResource).filter isResource) = _
    rw [hbefore, List.filter_filter]
    simp only [Bool.and_self]
    exact Entries.ofList_of_nodup hresources

/-- A head and a tree that a definition was made of: a member of the definition is one of these that
has something in it, and resources come from the tree alone. -/
structure MadeOf (head tree data : Members) : Prop where
  get? : ∀ name, Unmarked name → name ≠ "annotationTypes" → Entries.get? data name
    = ((Entries.get? tree name).or (Entries.get? head name)).filter fun v => !v.isVacant
  resources : data.filter isResource
    = (tree.filter isResource).filter fun member => !member.2.isVacant

/-- The parts of a definition: its head, and the declarations that its tree was made of. -/
structure DefinitionParts (version : Version) (project : Project) (data : Members)
    (mediaType : Value) (ordered : List Endpoint) (insertions : List Insertion)
    (head tree : Members) : Prop extends Heads version project head, MadeOf head tree data where
  mediaType_eq : mediaType
    = version.mediaType project.environment.consumes project.environment.produces
  schemas : ∃ declared, version.declareSchemas project.schemas = .ok declared
    ∧ Entries.get? head version.schemasName
      = if project.schemas.isEmpty then none else some declared
  traits : ∃ declared, traitDeclarations version (mediaTypeFor [] mediaType) project.traits
      = .ok declared ∧ Entries.get? head "traits" = declared.given?
  shown : inDisplayOrder project.environment.resourcesOrder.docs project.endpoints = .ok ordered
  inserts : List.Forall₂ (Inserts version project mediaType) ordered insertions
  built : insertAll (.obj []) insertions = .ok (.obj tree)

theorem spared_of_slash {name : String} (h : name.startsWith "/" = true) :
    Spared headNames name := by
  obtain ⟨segment, rfl⟩ := exists_resourceKey h
  refine ⟨fun hmem => ?_, unmarked_resourceKey segment⟩
  have hplain : ∀ name ∈ headNames, name.startsWith "/" = false := by
    simp [headNames, openingNames]
  rw [hplain _ hmem] at h
  cases h

/-- The definition before the declarations are put is head and tree together, framed by what writes
annotations only. -/
theorem madeOf {head tree m : Members} {names : List String} (hhead : Frames headNames [] head)
    (htree : (Entries.keys tree).Nodup)
    (hm : Frames names ((Entries.putAll head tree).filter fun member => !member.2.isVacant) m)
    (hnames : names = []) (written : Annotations) :
    MadeOf head tree (withDeclarations m written) := by
  subst hnames
  have hput := Entries.nodup_keys_putAll (hhead.nodup List.nodup_nil) tree
  have hnodup := hm.nodup (hput.sublist (List.filter_sublist.map _))
  constructor
  · intro name hplain hname
    rw [get?_withDeclarations_of_ne hnodup written hname, hm.get? name nofun hplain,
      Entries.get?_filter hput, Entries.get?_putAll_of_nodup _ htree]
  · -- Resources are spared by every step of the head, which therefore has none.
    have hspared : ∀ name : String, name.startsWith "/" = true → Spared [] name :=
      fun name hslash => ⟨nofun, (spared_of_slash hslash).2⟩
    have hnone : head.filter isResource = [] := hhead.kept _ fun name => spared_of_slash
    have hresources : (Entries.putAll head tree).filter isResource = tree.filter isResource := by
      refine (Entries.filter_putAll _ _ fun name : String => name.startsWith "/").trans ?_
      show Entries.putAll (head.filter isResource) (tree.filter isResource) = _
      rw [hnone]
      exact Entries.ofList_of_nodup (htree.sublist (List.filter_sublist.map _))
    rw [filter_isResource_withDeclarations hnodup, ← hresources]
    refine (hm.kept _ hspared).trans ?_
    rw [List.filter_filter, List.filter_filter]
    exact List.filter_congr fun member _ => Bool.and_comm _ _

/-- **Below the head a definition reads as its tree of resources.** -/
theorem MadeOf.entryAt_eq {head tree data : Members} (h : MadeOf head tree data)
    (hhead : Frames headNames [] head) {path : List String} (hpath : path ≠ []) (key : String) :
    entryAt path key (.obj data) = entryAt path key (.obj tree) := by
  obtain ⟨segment, path, rfl⟩ := List.exists_cons_of_ne_nil hpath
  have hspared := spared_of_slash (startsWith_resourceKey segment)
  have hnone : Entries.get? head (resourceKey segment) = none :=
    hhead.get? _ hspared.1 hspared.2
  rw [entryAt_cons, entryAt_cons, h.get? _ hspared.2 (resourceKey_ne (by simp) segment), hnone,
    Option.or_none]
  cases hchild : Entries.get? tree (resourceKey segment) with
  | none => rfl
  | some child =>
    cases hvacant : child.isVacant with
    | false => simp [Option.filter, hvacant]
    | true =>
      -- A resource without anything in it was left out, and nothing is found in it.
      have hnothing : entryAt path key child = none := by
        refine Option.eq_none_iff_forall_not_mem.mpr fun v hv => ?_
        rw [isVacant_of_entryAt hv] at hvacant
        cases hvacant
      simp [Option.filter, hvacant, hnothing]

/-- **Where a definition comes from.** -/
theorem definitionParts {version : Version} {project : Project} {data : Members}
    (h : definition version project = .ok data) :
    ∃ mediaType ordered insertions head tree,
      DefinitionParts version project data mediaType ordered insertions head tree := by
  obtain ⟨⟨m, written⟩, hcontent, hdata⟩ := Outcome.bind_eq_ok.mp h
  cases hdata
  unfold content at hcontent
  obtain ⟨opened, a₁, hopening, h₁⟩ := Pass.bind_eq_ok.mp hcontent
  obtain ⟨tree, a₂, htree, h₂⟩ := Pass.bind_eq_ok.mp h₁
  obtain ⟨typed, a₃, hlift, h₃⟩ := Pass.bind_eq_ok.mp h₂
  obtain ⟨htyped, rfl⟩ := Pass.lift_eq_ok.mp hlift
  obtain ⟨shared, a₄, hlift, h₄⟩ := Pass.bind_eq_ok.mp h₃
  obtain ⟨hshared, rfl⟩ := Pass.lift_eq_ok.mp hlift
  -- The steps of the pass give the parts one by one; the switch for annotations is that of the
  -- version, since the opening has left it.
  have hswitch : a₁.enabled = version.hasAnnotations :=
    steady_opening version project _ _ _ hopening
  obtain ⟨ordered, insertions, hshown, hinserts, hbuilt⟩ := insertions_of_resources hswitch htree
  obtain ⟨_, hafter, hnodup, _⟩ := insertAll_top hbuilt
  cases hafter
  obtain ⟨hopened, hundeclared⟩ := heads_opening hopening
  have htypes := frames_addTypes htyped
  have htraits := frames_addTraits hshared
  have hhead : Frames headNames [] shared :=
    (hopened.toFrames.trans (htypes.mono (by decide))).trans (htraits.mono (by decide))
  refine ⟨_, ordered, insertions, shared, tree,
    { toFrames := hhead, media := ?_, schemes := ?_, toMadeOf := ?_, mediaType_eq := ?_,
      schemas := ?_, traits := ?_, shown := hshown, inserts := hinserts, built := hbuilt }⟩
  · rw [htraits.get? _ (by decide) (unmarked_of_head (by simp)),
      htypes.get? _ (by decide) (unmarked_of_head (by simp)), hopened.media]
  · rw [htraits.get? _ (by decide) (unmarked_of_head (by simp)),
      htypes.get? _ (by decide) (unmarked_of_head (by simp)), hopened.schemes]
  · exact madeOf hhead (hnodup List.nodup_nil) (Frames.annotateAll h₄) rfl written
  · rw [Members.find, hopened.media, Option.getD_some]
  · obtain ⟨declared, hdeclared, hread⟩ :=
      get?_schemas_addTypes htyped (hundeclared _ (by cases version <;> decide))
    refine ⟨declared, hdeclared, ?_⟩
    rw [← hread]
    exact htraits.get? _ (by cases version <;> decide)
      (by cases version <;> exact unmarked_of_head (by simp [Version.schemasName]))
  · -- Neither the opening nor the types declare traits.
    refine get?_traits_addTraits hshared ?_
    rw [htypes.get? _ (by decide) (unmarked_of_head (by simp)), hundeclared _ (by decide)]

/-- The definition of a project, step by step. -/
theorem definition_eq_ok {version : Version} {project : Project} {opened typed head tree : Members}
    {a a' : Annotations}
    (hopening : opening version project { enabled := version.hasAnnotations } = .ok (opened, a))
    (hresources : resources version project (Members.find opened "mediaType") a = .ok (tree, a'))
    (htypes : addTypes version project.schemas opened = .ok typed)
    (htraits : addTraits version (Members.find opened "mediaType") project.traits typed = .ok head)
    (hextensions : project.extensions = []) :
    definition version project = .ok (withDeclarations
      ((Entries.putAll head tree).filter fun member => !member.2.isVacant) a') := by
  have hcontent : content version project { enabled := version.hasAnnotations }
      = .ok ((Entries.putAll head tree).filter fun member => !member.2.isVacant, a') := by
    unfold content
    rw [hextensions]
    exact Pass.bind_eq_ok.mpr ⟨_, _, hopening, Pass.bind_eq_ok.mpr ⟨_, _, hresources,
      Pass.bind_eq_ok.mpr ⟨_, _, Pass.lift_eq_ok.mpr ⟨htypes, rfl⟩,
        Pass.bind_eq_ok.mpr ⟨_, _, Pass.lift_eq_ok.mpr ⟨htraits, rfl⟩, rfl⟩⟩⟩⟩
  exact Outcome.bind_eq_ok.mpr ⟨_, hcontent, rfl⟩

/-- The definition of a project with nothing to declare besides its resources. -/
theorem definition_of_resources {version : Version} {project : Project} {head tree : Members}
    {a a' : Annotations}
    (hopening : opening version project { enabled := version.hasAnnotations } = .ok (head, a))
    (hresources : resources version project (Members.find head "mediaType") a = .ok (tree, a'))
    (hschemas : project.schemas = []) (htraits : project.traits = [])
    (hextensions : project.extensions = []) :
    definition version project = .ok (withDeclarations
      ((Entries.putAll head tree).filter fun member => !member.2.isVacant) a') := by
  have htypes : addTypes version project.schemas head = .ok head := by
    rw [hschemas]
    rfl
  have hshared : addTraits version (Members.find head "mediaType") project.traits head
      = .ok head := by
    rw [htraits]
    rfl
  exact definition_eq_ok hopening hresources htypes hshared hextensions

namespace DefinitionParts

variable {version : Version} {project : Project} {data : Members} {mediaType : Value}
  {ordered : List Endpoint} {insertions : List Insertion} {head tree : Members}
  (h : DefinitionParts version project data mediaType ordered insertions head tree)

include h

theorem exists_insertion {e : Endpoint} (he : e ∈ project.endpoints) :
    ∃ i ∈ insertions, Inserts version project mediaType e i :=
  exists_right_of_forall₂ h.inserts ((mem_inDisplayOrder h.shown).mpr he)

theorem exists_endpoint {i : Insertion} (hi : i ∈ insertions) :
    ∃ e ∈ project.endpoints, Inserts version project mediaType e i := by
  obtain ⟨e, he, hinserts⟩ := exists_right_of_forall₂ h.inserts.flip hi
  exact ⟨e, (mem_inDisplayOrder h.shown).mp he, hinserts⟩

end DefinitionParts

/-! ## What an exporter holds

From a definition to the exporter that has written it. -/

/-- An exporter keeps the definition that it built. -/
theorem Exporter.data_write {exporter : Exporter} {project : Project} {data : Members}
    (h : definition exporter.version project = .ok data) (form : String) :
    ((exporter.load project).write form).1.data = some data := by
  unfold write load
  dsimp only
  rw [h]

/-- An exporter that wrote a document holds the definition. -/
theorem Exporter.exists_definition {exporter : Exporter} {project : Project} {form text : String}
    (h : ((exporter.load project).write form).2 = .ok text) :
    ∃ data, definition exporter.version project = .ok data
      ∧ ((exporter.load project).write form).1.data = some data := by
  unfold write load at h ⊢
  dsimp only at h ⊢
  split at h
  · cases h
  · next data hdefinition => exact ⟨data, hdefinition, rfl⟩

end Ramlify.Raml
