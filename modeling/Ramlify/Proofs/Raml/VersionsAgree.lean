import Ramlify.Proofs.Lowercase
import Ramlify.Proofs.LoweredMethods
import Ramlify.Proofs.Raml.DefinitionParts
import Ramlify.Proofs.Raml.MethodOutline
import Ramlify.Proofs.StoredRequest

/-!
# Ramlify — the versions describe the same API

A project is exported in the two versions of RAML by one pass, which asks the version wherever they
differ. The operations are inserted in one order, and in both versions their declarations have one
outline; so the trees are built in lockstep. A method that is called like a resource breaks this:
its name would be that of the resource in one version only.

* **`versions_agree`** — the resources of the two definitions have one outline.
-/

namespace Ramlify.Raml

/-- Leaving out what is vacant leaves it out of the outline. -/
theorem filter_vacant_outlineMembers {members : Members}
    (h : ∀ member ∈ members, isResource member = true) :
    outlineMembers (members.filter fun member => !member.2.isVacant)
      = (outlineMembers members).filter fun member => !member.2.isVacant := by
  have hvacant : ∀ v : Value, (outline v).isVacant = v.isVacant := by
    intro v
    cases v with
    | obj members =>
      rw [outline, Value.isVacant, Value.isVacant, outlineMembers_eq, Entries.isEmpty_mapValues]
    | null | bool | int | float | str | list => rfl
  rw [outlineMembers_eq, outlineMembers_eq, Entries.mapValues, Entries.mapValues, List.filter_map]
  refine congrArg _ (List.filter_congr fun member hmember => ?_)
  have hslash : member.1.startsWith "/" = true := h member hmember
  rw [Function.comp_apply, outlineMember, if_pos hslash, hvacant]

/-- The resources of a definition have the outline that they have in the tree. -/
theorem MadeOf.outline {head tree data : Members} (h : MadeOf head tree data) :
    outlineMembers (data.filter isResource)
      = ((outlineMembers tree).filter isResource).filter fun member => !member.2.isVacant := by
  rw [h.resources,
    filter_vacant_outlineMembers fun member hmember => (List.mem_filter.mp hmember).2]
  exact congrArg _ (filter_outlineMembers tree fun name => name.startsWith "/")

section

variable {project : Project} {version version' : Version} {mediaType mediaType' : Value}

theorem insertionsAgree {e : Endpoint} {i i' : Insertion}
    (h : Inserts version project mediaType e i) (h' : Inserts version' project mediaType' e i') :
    InsertionsAgree i i' := by
  obtain ⟨_, _, hmethod⟩ := h.declared
  obtain ⟨_, _, hmethod'⟩ := h'.declared
  exact ⟨h.segments.trans h'.segments.symm, h.key.trans h'.key.symm,
    methodsAgree (methodParts hmethod) (methodParts hmethod')⟩

/-- All insertions of the two versions agree, one by one. -/
theorem forall₂_insertionsAgree {ordered : List Endpoint} {insertions insertions' : List Insertion}
    (h : List.Forall₂ (Inserts version project mediaType) ordered insertions)
    (h' : List.Forall₂ (Inserts version' project mediaType') ordered insertions') :
    List.Forall₂ InsertionsAgree insertions insertions' := by
  induction h generalizing insertions' with
  | nil =>
    cases h'
    exact .nil
  | cons hfirst _ ih =>
    cases h' with
    | cons hfirst' hrest' => exact .cons (insertionsAgree hfirst hfirst') (ih hrest')

end

/-- **The versions describe the same API**, if no method begins with a slash. The resources of the
two definitions of a project have the same keys in the same order, at any depth, with the same names
and parameters, and the parts of each method that RAML has in both versions are the same; only
annotations are different. The methods are in lower case like those of every project that was read
(`methodsLowered_of_shape`). -/
theorem versions_agree {project : Project} {older newer : Members}
    (h : definition .v08 project = .ok older) (h' : definition .v10 project = .ok newer)
    (hmethods : project.MethodsLowered)
    (hslashes : ∀ e ∈ project.endpoints, e.request.method.startsWith "/" = false) :
    outlineMembers (older.filter isResource) = outlineMembers (newer.filter isResource) := by
  obtain ⟨mediaType, ordered, insertions, head, tree, hparts⟩ := definitionParts h
  obtain ⟨mediaType', ordered', insertions', head', tree', hparts'⟩ := definitionParts h'
  cases hparts.shown.symm.trans hparts'.shown
  -- Methods are in small letters and without a slash, so no key of a method is the name of
  -- something else in a resource.
  have hkeys : ∀ i ∈ insertions, IsMethodKey i.key := by
    intro i hi
    obtain ⟨e, he, hinserts⟩ := hparts.exists_endpoint hi
    obtain ⟨s, hs⟩ := hmethods e he
    rw [hinserts.key]
    refine ⟨hslashes e he, ?_, ?_⟩
    · exact hs ▸ Unicode.lower_ne ⟨'N', by decide, by decide⟩ s
    · exact hs ▸ Unicode.lower_ne ⟨'P', by decide, by decide⟩ s
  -- The insertions of both versions agree one by one, and so do the trees that are built of them.
  have hagree := forall₂_insertionsAgree hparts.inserts hparts'.inserts
  have hsame := outline_insertAll hagree hkeys hparts.built hparts'.built rfl
  rw [hparts.toMadeOf.outline, hparts'.toMadeOf.outline, Value.obj.inj hsame]

/-! ### A parameter with an annotation, and a method that is called like a resource

The first project has one outline in both versions, though its parameter has an annotation in one of
them. The second one has two, since the name of a method is taken for that of a resource. -/

/-- A path parameter of which RAML 1.0 keeps more than RAML 0.8. -/
def identifier : Value :=
  .obj [("properties", .obj
    [("id", .obj [("type", .str "string"), ("collectionFormat", .str "csv")])])]

/-- The path parameters are read as they were set. -/
theorem read_identifier {r : Request} :
    (r.setPathParams identifier).read .pathParams = .ok identifier := by
  have hstorable : Json.Storable identifier := by
    simp [identifier, Json.Storable, Json.StorableMembers]
  exact Request.read_setPathParams r hstorable (by decide)

/-- An operation with a name, a tag and a parameter that belongs to its resource. -/
def findPet : Endpoint where
  name := "Find"
  tags := ["pet"]
  request := ({ path := "/pets/\x7bid\x7d", method := "get" } : Request).setPathParams identifier

/-- A project with one operation. -/
def petProject : Project where
  endpoints := [findPet]

/-- The tree of the project, where the operation and its parameter are declared in some way. -/
def petTree (parameter method : Members) : Members :=
  [("/pets", .obj [("displayName", .str "pets"),
    ("/\x7bid\x7d", .obj [("displayName", .str "\x7bid\x7d"),
      ("uriParameters", .obj [("id", .obj parameter)]), ("get", .obj method)])])]

/-- What RAML 0.8 has of the project. -/
def olderPets : Members := petTree [("type", .str "string")] [("description", .str "Find")]

/-- What RAML 1.0 has of the project, but for the declarations of annotations. -/
def newerPets : Members :=
  petTree [("type", .str "string"), ("(oas-collectionFormat)", .str "csv")]
    [("displayName", .str "Find"), ("(oas-tags)", .list [.str "pet"])]

/-- The annotations of the project. -/
def petAnnotations : Annotations where
  kinds := ["oas-collectionFormat", "oas-tags"]

set_option maxRecDepth 100000 in
/-- The declarations of the operation in both versions. -/
theorem methodOf_findPet :
    methodOf .v08 petProject (.str "") findPet { enabled := false }
        = .ok ([("description", .str "Find"),
            ("uriParameters", .obj [("id", .obj [("type", .str "string")])])], { enabled := false })
      ∧ methodOf .v10 petProject (.str "") findPet {}
        = .ok ([("displayName", .str "Find"),
            ("uriParameters", .obj [("id", .obj [("type", .str "string"),
              ("(oas-collectionFormat)", .str "csv")])]),
            ("(oas-tags)", .list [.str "pet"])], petAnnotations) := by
  have hheaders : findPet.request.read .headers = .ok (.obj []) := Request.parse_emptyObject
  have hquery : findPet.request.read .query = .ok (.obj []) := Request.parse_emptyObject
  have hpath : findPet.request.read .pathParams = .ok identifier := read_identifier
  constructor
  all_goals
    unfold methodOf addExchange
    dsimp only
    rw [hheaders, hquery, hpath]
    rfl

set_option maxRecDepth 100000 in
/-- The definitions of the project in both versions. -/
theorem definition_petProject :
    definition .v08 petProject = .ok olderPets
      ∧ definition .v10 petProject = .ok (withDeclarations newerPets petAnnotations) := by
  obtain ⟨holder, hnewer⟩ := methodOf_findPet
  have hresources : ∀ version m a a' tree,
      methodOf version petProject (.str "") findPet a = .ok (m, a') →
      placeMethod (.obj []) ["pets", "\x7bid\x7d"] "get" (.obj m) = .ok (.obj tree) →
      resources version petProject (.str "") a = .ok (tree, a') := by
    intro version m a a' tree hmethod hplace
    exact resources_of_ungrouped rfl
      (Pass.bind_eq_ok.mpr ⟨_, _, addOperation_eq_ok hmethod hplace, rfl⟩)
  constructor
  · exact Eq.trans (definition_of_resources rfl (hresources _ _ _ _ _ holder rfl) rfl rfl rfl) rfl
  · exact Eq.trans (definition_of_resources rfl (hresources _ _ _ _ _ hnewer rfl) rfl rfl rfl) rfl

/-- The two definitions are different, but not in outline. -/
theorem versions_agree_pet :
    definition .v08 petProject = .ok olderPets
      ∧ definition .v10 petProject = .ok (withDeclarations newerPets petAnnotations)
      ∧ outlineMembers (olderPets.filter isResource)
        = outlineMembers ((withDeclarations newerPets petAnnotations).filter isResource) := by
  obtain ⟨holder, hnewer⟩ := definition_petProject
  have hlowered : findPet.request.Lowered := ⟨"get", by decide +kernel⟩
  have hplain : findPet.request.method.startsWith "/" = false := by
    show "get".startsWith "/" = false
    simp
  exact ⟨holder, hnewer, versions_agree holder hnewer
    (List.forall_mem_singleton.mpr hlowered) (List.forall_mem_singleton.mpr hplain)⟩

/-- An operation whose method is called like a resource. -/
def slashed : Endpoint where
  name := "id"
  request := { path := "/a", method := "/x" }

/-- An operation at the resource of that name. -/
def covered : Endpoint where
  request := ({ path := "/a/x", method := "get" } : Request).setPathParams identifier

/-- Both operations stand under one key below the resource of the first. -/
def slashedProject : Project where
  endpoints := [slashed, covered]

/-- What is under the key of the first operation. -/
def slashedTree (members : Members) : Members :=
  [("/a", .obj [("displayName", .str "a"), ("/x", .obj members)])]

/-- The parameter of the second operation in RAML 1.0. -/
def annotatedIdentifier : Value :=
  .obj [("id", .obj [("type", .str "string"), ("(oas-collectionFormat)", .str "csv")])]

set_option maxRecDepth 100000 in
/-- The declarations of the first operation. -/
theorem methodOf_slashed :
    methodOf .v08 slashedProject (.str "") slashed { enabled := false }
        = .ok ([("description", .str "id")], { enabled := false })
      ∧ methodOf .v10 slashedProject (.str "") slashed {}
        = .ok ([("displayName", .str "id")], {}) := by
  have hheaders : slashed.request.read .headers = .ok (.obj []) := Request.parse_emptyObject
  have hquery : slashed.request.read .query = .ok (.obj []) := Request.parse_emptyObject
  have hpath : slashed.request.read .pathParams = .ok (.obj []) := Request.parse_emptyObject
  constructor
  all_goals
    unfold methodOf addExchange
    dsimp only
    rw [hheaders, hquery, hpath]
    rfl

set_option maxRecDepth 100000 in
/-- The declarations of the second operation. -/
theorem methodOf_covered :
    methodOf .v08 slashedProject (.str "") covered { enabled := false }
        = .ok ([("uriParameters", .obj [("id", .obj [("type", .str "string")])])],
          { enabled := false })
      ∧ methodOf .v10 slashedProject (.str "") covered {}
        = .ok ([("uriParameters", annotatedIdentifier)],
          { kinds := ["oas-collectionFormat"] }) := by
  have hheaders : covered.request.read .headers = .ok (.obj []) := Request.parse_emptyObject
  have hquery : covered.request.read .query = .ok (.obj []) := Request.parse_emptyObject
  have hpath : covered.request.read .pathParams = .ok identifier := read_identifier
  constructor
  all_goals
    unfold methodOf addExchange
    dsimp only
    rw [hheaders, hquery, hpath]
    rfl

/-- What RAML 0.8 has of the project. -/
def olderSlashed : Members := slashedTree [("description", .str "id"), ("get", .obj [])]

/-- What RAML 1.0 has of the project, but for the declarations of annotations. -/
def newerSlashed : Members :=
  slashedTree [("displayName", .str "id"), ("uriParameters", annotatedIdentifier), ("get", .obj [])]

set_option maxRecDepth 100000 in
/-- The definitions of the project in both versions: the second operation stands in the method of
the first one. -/
theorem definition_slashedProject :
    definition .v08 slashedProject = .ok olderSlashed
      ∧ definition .v10 slashedProject
        = .ok (withDeclarations newerSlashed { kinds := ["oas-collectionFormat"] }) := by
  obtain ⟨hfirst, hfirst'⟩ := methodOf_slashed
  obtain ⟨hsecond, hsecond'⟩ := methodOf_covered
  have holder : resources .v08 slashedProject (.str "") { enabled := false }
      = .ok (olderSlashed, { enabled := false }) :=
    resources_of_ungrouped rfl (Pass.bind_eq_ok.mpr ⟨_, _, addOperation_eq_ok hfirst rfl,
      Pass.bind_eq_ok.mpr ⟨_, _, addOperation_eq_ok hsecond rfl, rfl⟩⟩)
  have hnewer : resources .v10 slashedProject (.str "") {}
      = .ok (newerSlashed, { kinds := ["oas-collectionFormat"] }) :=
    resources_of_ungrouped rfl (Pass.bind_eq_ok.mpr ⟨_, _, addOperation_eq_ok hfirst' rfl,
      Pass.bind_eq_ok.mpr ⟨_, _, addOperation_eq_ok hsecond' rfl, rfl⟩⟩)
  constructor
  · exact Eq.trans (definition_of_resources rfl holder rfl rfl rfl) rfl
  · exact Eq.trans (definition_of_resources rfl hnewer rfl rfl rfl) rfl

/-- **A method that is called like a resource** names that resource in RAML 1.0, so a parameter of
another operation moves there; in RAML 0.8 it does not. -/
theorem versions_disagree_slashed :
    ∃ older newer, definition .v08 slashedProject = .ok older
      ∧ definition .v10 slashedProject = .ok newer
      ∧ older.filter isResource = olderSlashed ∧ newer.filter isResource = newerSlashed
      ∧ outlineMembers (older.filter isResource) ≠ outlineMembers (newer.filter isResource) := by
  obtain ⟨holder, hnewer⟩ := definition_slashedProject
  have hresources : ∀ members, (slashedTree members).filter isResource = slashedTree members := by
    intro members
    simp [slashedTree, isResource]
  have hnodup : (Entries.keys newerSlashed).Nodup := List.nodup_singleton _
  have hdeclared : (withDeclarations newerSlashed { kinds := ["oas-collectionFormat"] }).filter
      isResource = newerSlashed :=
    (filter_isResource_withDeclarations hnodup _).trans (hresources _)
  refine ⟨_, _, holder, hnewer, hresources _, hdeclared, ?_⟩
  rw [hdeclared, olderSlashed, hresources]
  simp [newerSlashed, slashedTree, outlineMembers, outline]

end Ramlify.Raml
