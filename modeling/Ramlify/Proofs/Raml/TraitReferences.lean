import Mathlib.Data.List.Pairwise
import Ramlify.Proofs.Raml.ShownMethods
import Ramlify.Proofs.StoredRequest

/-!
# Ramlify — references to traits resolve

An operation lists the ids of traits, its declaration has the names of these traits in camel case,
and the traits are declared under such names: in a map, or in a list of maps.

* **`traitDeclarations_eq_ok`** — the declarations are those of the traits, in their order.
* **`forall₂_traitNames`** — the names of an operation are those of the known ids, in their order.
* **`declaredTraits_eq`** — a finished definition has all declarations of traits.
* **`traits_resolve`** — what an operation refers to is declared.
-/

namespace Ramlify

/-- The name under which a trait is declared. -/
def Trait.declaredName (t : Trait) : String := Text.camelCase t.name

end Ramlify

namespace Ramlify.Raml

/-! ## The declarations of traits

Traits are declared one after another. RAML 1.0 collects the declarations in a map, where those of
one name fall together. -/

/-- The declaration of a trait: its fields under its name. -/
def DeclaresTrait (version : Version) (mediaType : String) (t : Trait) (d : String × Value) :
    Prop :=
  ∃ fields, traitFields version mediaType t = .ok fields ∧ d = (t.declaredName, .obj fields)

/-- Declarations with those of one name put together, where they are kept in a map. -/
def collected (version : Version) (declared : Members) : Members :=
  match version with
  | .v10 => Entries.ofList declared
  | .v08 => declared

/-- One more trait is declared behind the others. -/
theorem declareTrait_collected (version : Version) (t : Trait) (fields : Members)
    (declared : Members) :
    version.declareTrait t.name (.obj fields) (version.declarations (collected version declared))
      = .ok (version.declarations
          (collected version (declared ++ [(t.declaredName, .obj fields)]))) := by
  cases version with
  | v10 =>
    show Value.put (.obj (Entries.ofList declared)) t.declaredName (.obj fields) = _
    rw [collected, Entries.ofList_concat]
    rfl
  | v08 =>
    show Except.ok (Value.list (declared.map _ ++ [.obj [(t.declaredName, .obj fields)]])) = _
    rw [collected, Version.declarations, List.map_append]
    rfl

/-- **The declarations of traits**, in the order of the traits. -/
theorem traitDeclarations_eq_ok {version : Version} {mediaType : String} {traits : List Trait}
    {v : Value} (h : traitDeclarations version mediaType traits = .ok v) :
    ∃ declared, List.Forall₂ (DeclaresTrait version mediaType) traits declared
      ∧ v = version.declarations (collected version declared) := by
  -- The traits that are done have been declared already.
  have hrun : ∀ (before : Members),
      traits.foldlM (fun declared trait => do
        version.declareTrait trait.name (.obj (← traitFields version mediaType trait)) declared)
        (version.declarations (collected version before)) = .ok v →
      ∃ declared, List.Forall₂ (DeclaresTrait version mediaType) traits declared
        ∧ v = version.declarations (collected version (before ++ declared)) := by
    clear h
    induction traits with
    | nil =>
      intro before h
      cases h
      exact ⟨[], .nil, by rw [List.append_nil]⟩
    | cons t traits ih =>
      intro before h
      rw [List.foldlM_cons] at h
      obtain ⟨next, hnext, hrest⟩ := Outcome.bind_eq_ok.mp h
      obtain ⟨fields, hfields, hdeclared⟩ := Outcome.bind_eq_ok.mp hnext
      rw [declareTrait_collected] at hdeclared
      cases hdeclared
      obtain ⟨declared, hrelated, rfl⟩ := ih _ hrest
      refine ⟨_, .cons ⟨fields, hfields, rfl⟩ hrelated, ?_⟩
      rw [List.append_assoc, List.singleton_append]
  have hstart : version.noTraits = version.declarations (collected version []) := by
    cases version <;> rfl
  rw [traitDeclarations, hstart] at h
  exact hrun [] h

/-- The names of the declarations are those of the traits. -/
theorem keys_of_declaresTrait {version : Version} {mediaType : String} {traits : List Trait}
    {declared : Members} (h : List.Forall₂ (DeclaresTrait version mediaType) traits declared) :
    Entries.keys declared = traits.map (·.declaredName) := by
  induction h with
  | nil => rfl
  | cons hfirst _ ih =>
    obtain ⟨_, _, rfl⟩ := hfirst
    rw [List.map_cons, ← ih]
    rfl

theorem mem_keys_collected {version : Version} {declared : Members} {name : String} :
    name ∈ Entries.keys (collected version declared) ↔ name ∈ Entries.keys declared := by
  cases version with
  | v08 => rfl
  | v10 =>
    rw [collected, Entries.keys_ofList, List.mem_eraseDups]
    rfl

/-- Without shared names nothing falls together. -/
theorem collected_of_nodup (version : Version) {declared : Members}
    (h : (Entries.keys declared).Nodup) : collected version declared = declared := by
  cases version with
  | v08 => rfl
  | v10 => exact Entries.ofList_of_nodup h

/-! ## The names of an operation

An operation lists ids. Those that are of no trait are passed over, and each of the others becomes a
name. -/

/-- Whether an id is that of a trait. -/
def isTraitId (traits : List Trait) (id : String) : Bool := traits.any (·.id == some id)

/-- **The names of an operation** are those of the known ids, in their order. -/
theorem forall₂_traitNames (traits : List Trait) (ids : List String) :
    List.Forall₂ (fun id name => ∃ t ∈ traits, t.id = some id ∧ t.declaredName = name)
      (ids.filter (isTraitId traits)) (traitNames traits ids) := by
  unfold traitNames
  dsimp only
  set named := Entries.ofList (traits.map fun t => (t.id, t.name)) with hnamed
  -- An id has a name exactly if it is known.
  have hknown : ∀ id : String, (Entries.get? named (some id)).isSome = isTraitId traits id := by
    intro id
    rw [Bool.eq_iff_iff, Entries.isSome_get?_iff, hnamed, Entries.keys_ofList, List.mem_eraseDups,
      isTraitId, List.any_eq_true]
    simp
  induction ids with
  | nil => exact .nil
  | cons id ids ih =>
    cases hname : Entries.get? named (some id) with
    | none =>
      have hunknown : isTraitId traits id = false := by rw [← hknown, hname]; rfl
      simpa [hunknown, hname] using ih
    | some name =>
      have hid : isTraitId traits id = true := by rw [← hknown, hname]; rfl
      obtain ⟨t, ht, hpair⟩ := List.mem_map.mp (Entries.mem_ofList (Entries.mem_of_get? hname))
      obtain ⟨htid, htname⟩ := Prod.mk.inj hpair
      have hfirst : t.declaredName = Text.camelCase name := by rw [Trait.declaredName, htname]
      simpa [hid, hname] using List.Forall₂.cons ⟨t, ht, htid, hfirst⟩ ih

/-! ## References

A name refers to a declaration of that name. That it is the declaration of the right trait takes two
conditions: no two traits share an id, and none share a name. -/

/-- A reference to a trait by id, with the name that stands for it: it is the name of a trait with
this id, it is declared, and if no two traits share an id or a name, it is declared with the fields
of the trait that has this id. -/
structure TraitReference (version : Version) (mediaType : String) (traits : List Trait)
    (declared : Members) (id name : String) : Prop where
  named : ∃ t ∈ traits, t.id = some id ∧ t.declaredName = name
  isDeclared : name ∈ Entries.keys declared
  resolved : (traits.filterMap (·.id)).Nodup → (traits.map (·.declaredName)).Nodup →
    ∀ t ∈ traits, t.id = some id → ∃ fields, traitFields version mediaType t = .ok fields
      ∧ Entries.get? declared name = some (.obj fields)

/-- Where all ids are different, an id tells the trait. -/
theorem eq_of_nodup_ids {traits : List Trait} (h : (traits.filterMap (·.id)).Nodup) {t u : Trait}
    (ht : t ∈ traits) (hu : u ∈ traits) {id : String} (htid : t.id = some id)
    (huid : u.id = some id) : t = u := by
  by_contra hne
  have hsymm : Std.Symm fun t u : Trait => ∀ i, t.id = some i → ∀ j, u.id = some j → i ≠ j :=
    ⟨fun t u hdiffer i hi j hj => (hdiffer j hj i hi).symm⟩
  exact (List.pairwise_filterMap.mp h).forall ht hu hne id htid id huid rfl

/-- Every name of an operation is a reference. -/
theorem traitReference {version : Version} {mediaType : String} {traits : List Trait}
    {declared : Members} (h : List.Forall₂ (DeclaresTrait version mediaType) traits declared)
    {id name : String} (hnamed : ∃ t ∈ traits, t.id = some id ∧ t.declaredName = name) :
    TraitReference version mediaType traits (collected version declared) id name where
  named := hnamed
  isDeclared := by
    obtain ⟨t, ht, _, rfl⟩ := hnamed
    rw [mem_keys_collected, keys_of_declaresTrait h]
    exact List.mem_map_of_mem ht
  resolved := by
    intro hids hnames u hu huid
    obtain ⟨t, ht, htid, rfl⟩ := hnamed
    obtain rfl := eq_of_nodup_ids hids ht hu htid huid
    obtain ⟨d, hd, fields, hfields, rfl⟩ := exists_right_of_forall₂ h ht
    have hnodup : (Entries.keys declared).Nodup := by rwa [keys_of_declaresTrait h]
    refine ⟨fields, hfields, ?_⟩
    rw [collected_of_nodup version hnodup]
    exact Entries.get?_of_mem hnodup hd

/-! ## The declarations of a definition

The traits stand in the head under one name, and where all paths have a slash no operation writes
there. -/

/-- The declarations of traits that a definition has. -/
def declaredTraits (version : Version) (data : Members) : Members :=
  declarationsIn version (Entries.get? data "traits")

section

variable {version : Version} {project : Project} {data : Members} {mediaType : Value}
  {ordered : List Endpoint} {insertions : List Insertion} {head tree : Members}
  (h : DefinitionParts version project data mediaType ordered insertions head tree)
  (hpaths : ∀ e ∈ project.endpoints, '/' ∈ e.request.path.toList)

include h hpaths

/-- At the top of a tree there are resources only, if all paths have a slash. -/
theorem get?_tree_top {key : String} (hkey : key.startsWith "/" = false) :
    Entries.get? tree key = none := by
  refine get?_insertAll_of_below (fun i hi => ?_) hkey h.built
  obtain ⟨e, he, hinserts⟩ := h.exists_endpoint hi
  rw [hinserts.segments]
  exact segmentsOf_ne_nil (hpaths e he)

/-- **A finished definition has all declarations of traits.** -/
theorem declaredTraits_eq : ∃ declared,
    List.Forall₂ (DeclaresTrait version (mediaTypeFor [] mediaType)) project.traits declared
      ∧ declaredTraits version data = collected version declared := by
  obtain ⟨v, hv, hhead⟩ := h.traits
  obtain ⟨declared, hdeclared, rfl⟩ := traitDeclarations_eq_ok hv
  refine ⟨declared, hdeclared, ?_⟩
  have hdata := h.toMadeOf.get? "traits" (unmarked_of_head (by simp)) (by decide)
  rw [get?_tree_top h hpaths (by simp), Option.none_or, hhead] at hdata
  rw [declaredTraits, hdata, declarationsIn_given?]

end

/-! ## References resolve

Both sides put together: what an operation lists, and what the definition declares. -/

/-- **References to traits resolve**, if all paths have a slash and no method begins with one. An
exporter that wrote a project holds a definition in which

* at the place of each operation there is the declaration of the one that is shown there, and it has
  the names of the known ones of its trait ids, in their order: each is the name of a trait with
  that id, is declared in the definition, and leads to the fields of the trait with that id unless
  ids or names are shared;
* methods stand at the places of operations only.

The methods are in lower case like those of every project that was read
(`methodsLowered_of_shape`). -/
theorem traits_resolve {exporter : Exporter} {project : Project} {form text : String}
    (h : ((exporter.load project).write form).2 = .ok text) (hmethods : project.MethodsLowered)
    (hslashes : ∀ e ∈ project.endpoints, e.request.method.startsWith "/" = false)
    (hpaths : ∀ e ∈ project.endpoints, '/' ∈ e.request.path.toList) :
    ∃ data ordered, ((exporter.load project).write form).1.data = some data
      ∧ inDisplayOrder project.environment.resourcesOrder.docs project.endpoints = .ok ordered
      ∧ (∀ e ∈ project.endpoints, ∃ owner declared names,
          shownAt ordered (segmentsOf e.request.path) e.request.method = some owner
          ∧ entryAt (segmentsOf e.request.path) e.request.method (.obj data)
            = some (.obj declared)
          ∧ Entries.get? declared "is" = (Value.texts names).given?
          ∧ List.Forall₂ (TraitReference exporter.version
              (mediaTypeFor [] (exporter.version.mediaType project.environment.consumes
                project.environment.produces))
              project.traits (declaredTraits exporter.version data))
            (owner.traits.filter (isTraitId project.traits)) names)
      ∧ ∀ path key v, path ≠ [] → IsMethodKey key → entryAt path key (.obj data) = some v →
          ∃ e ∈ project.endpoints, segmentsOf e.request.path = path ∧ e.request.method = key := by
  obtain ⟨data, hdefinition, hdata⟩ := Exporter.exists_definition h
  obtain ⟨mediaType, ordered, insertions, head, tree, hparts⟩ := definitionParts hdefinition
  obtain ⟨declaredHere, hdeclares, hdeclared⟩ :=
    declaredTraits_eq hparts hpaths
  refine ⟨data, ordered, hdata, hparts.shown, fun e he => ?_, fun path key v hpath hkey hv =>
    exists_of_entryAt hparts hmethods hslashes hpath hkey hv⟩
  -- At the place of an operation stands the declaration of the one that is shown there.
  have hentry := entryAt_shown hparts hmethods hslashes (segmentsOf_ne_nil (hpaths e he))
    (isMethodKey_method hparts hmethods hslashes he)
  obtain ⟨owner, howner⟩ := exists_shownAt ((mem_inDisplayOrder hparts.shown).mpr he)
  rw [howner] at hentry
  generalize hfound : entryAt (segmentsOf e.request.path) e.request.method (.obj data) = found
    at hentry
  cases hentry with
  | some hmethod =>
    obtain ⟨declared, hmethod, rfl⟩ := hmethod
    refine ⟨owner, _, traitNames project.traits owner.traits, howner, rfl, ?_, ?_⟩
    · rw [Entries.get?_erase_of_ne _ (by decide), hmethod.traits]
    · rw [hdeclared, ← hparts.mediaType_eq]
      exact (forall₂_traitNames project.traits owner.traits).imp fun id name hnamed =>
        traitReference hdeclares hnamed

/-! ### Traits that are known, unknown, and lost

An operation with known and unknown traits, and two operations of which one takes the place of the
traits of the other. -/

/-- A trait with a query parameter. -/
def pagedTrait : Trait where
  id := some "paged"
  name := "paged list"
  query := [("properties", .obj [("page", .obj [("type", .str "integer")])])]

def hiddenTrait : Trait where
  id := some "hidden"
  name := "Not shown"

/-- An operation with two traits of its project and one of another. -/
def pagedEndpoint : Endpoint where
  traits := ["hidden", "gone", "paged"]
  request := { path := "/pets", method := "get" }

def pagedProject : Project where
  endpoints := [pagedEndpoint]
  traits := [pagedTrait, hiddenTrait, { name := "of no id" }]

/-- The operation refers to the two traits, and one of them is declared with its parameter. -/
theorem traits_resolve_paged :
    ∃ data declared, (((Exporter.mk .v08 none none).load pagedProject).write "yaml").1.data
        = some data
      ∧ entryAt ["pets"] "get" (.obj data) = some (.obj declared)
      ∧ Entries.get? declared "is" = some (Value.texts ["notShown", "pagedList"])
      ∧ Entries.get? (declaredTraits .v08 data) "pagedList" = some (.obj
          [("queryParameters", .obj [("page", .obj [("type", .str "integer")])])]) := by
  have hwritten : ∃ text, (((Exporter.mk .v08 none none).load pagedProject).write "yaml").2
      = .ok text := Outcome.exists_of_isSome (by decide +kernel)
  obtain ⟨text, hwritten⟩ := hwritten
  have hlowered : pagedEndpoint.request.Lowered := ⟨"get", by decide +kernel⟩
  have hslash : pagedEndpoint.request.method.startsWith "/" = false := by
    show "get".startsWith "/" = false
    simp
  have hpath : '/' ∈ pagedEndpoint.request.path.toList := by decide
  obtain ⟨data, ordered, hdata, hordered, hplaces, _⟩ := traits_resolve hwritten
    (List.forall_mem_singleton.mpr hlowered) (List.forall_mem_singleton.mpr hslash)
    (List.forall_mem_singleton.mpr hpath)
  obtain ⟨owner, declared, names, howner, hentry, hnames, hreferences⟩ :=
    hplaces pagedEndpoint List.mem_cons_self
  obtain rfl : owner = pagedEndpoint :=
    List.mem_singleton.mp ((mem_inDisplayOrder hordered).mp (mem_of_shownAt howner).1)
  have hknown : pagedEndpoint.traits.filter (isTraitId pagedProject.traits)
      = ["hidden", "paged"] := by decide
  rw [hknown] at hreferences
  -- Each of the two ids is that of one trait.
  have hids : (pagedProject.traits.filterMap (·.id)).Nodup := by decide
  have hpaged : pagedTrait ∈ pagedProject.traits := List.mem_cons_self
  have hhidden : hiddenTrait ∈ pagedProject.traits := List.mem_cons_of_mem _ List.mem_cons_self
  obtain ⟨first, second, hfirst, hsecond, rfl⟩ : ∃ first second,
      TraitReference .v08 _ _ _ "hidden" first ∧ TraitReference .v08 _ _ _ "paged" second
        ∧ names = [first, second] := by
    cases hreferences with
    | cons hfirst hrest =>
      cases hrest with
      | cons hsecond hnil =>
        cases hnil
        exact ⟨_, _, hfirst, hsecond, rfl⟩
  obtain ⟨t, ht, htid, rfl⟩ := hfirst.named
  obtain rfl := eq_of_nodup_ids hids ht hhidden htid rfl
  obtain ⟨u, hu, huid, rfl⟩ := hsecond.named
  obtain rfl := eq_of_nodup_ids hids hu hpaged huid rfl
  have hcamel : hiddenTrait.declaredName = "notShown" ∧ pagedTrait.declaredName = "pagedList" := by
    decide +kernel
  obtain ⟨fields, hfields, hget⟩ := hsecond.resolved hids (by decide +kernel) pagedTrait hpaged rfl
  rw [hcamel.1, hcamel.2] at hnames
  rw [hcamel.2] at hget
  cases hfields
  exact ⟨data, declared, hdata, hentry, hnames, hget⟩

/-- An operation with a trait whose method is called like a resource. -/
def traitedEndpoint : Endpoint where
  traits := ["paged"]
  request := { path := "/a", method := "/x" }

/-- An operation at the resource of that name, with the method under which traits are listed. -/
def coveringEndpoint : Endpoint where
  request := { path := "/a/x", method := "is" }

/-- The second operation takes the place of the traits of the first. -/
def coveringProject : Project where
  endpoints := [traitedEndpoint, coveringEndpoint]
  traits := [pagedTrait]

/-- The resources of the project, where the two operations stand under one key. -/
def coveringTree : Members :=
  [("/a", .obj [("displayName", .str "a"), ("/x", .obj [("is", .obj [])])])]

def coveringDefinition : Members :=
  ("traits", .obj [("pagedList", .obj
      [("queryParameters", .obj [("page", .obj [("type", .str "integer")])])])]) :: coveringTree

set_option maxRecDepth 100000 in
/-- The definition of the project, by computation. -/
theorem definition_covering : definition .v10 coveringProject = .ok coveringDefinition := by
  have hfirst : methodOf .v10 coveringProject (.str "") traitedEndpoint {}
      = .ok ([("is", Value.texts ["pagedList"])], {}) := by
    have hread := Request.read_bare "/a" "/x"
    unfold methodOf addExchange
    dsimp only [traitedEndpoint]
    rw [hread .headers (by decide), hread .query (by decide), hread .pathParams (by decide)]
    rfl
  have hsecond : methodOf .v10 coveringProject (.str "") coveringEndpoint {} = .ok ([], {}) := by
    have hread := Request.read_bare "/a/x" "is"
    unfold methodOf addExchange
    dsimp only [coveringEndpoint]
    rw [hread .headers (by decide), hread .query (by decide), hread .pathParams (by decide)]
    rfl
  -- The second operation is put into the method of the first one, under the name of its traits.
  have hresources : resources .v10 coveringProject (.str "") {} = .ok (coveringTree, {}) :=
    resources_of_ungrouped rfl (Pass.bind_eq_ok.mpr ⟨_, _, addOperation_eq_ok hfirst rfl,
      Pass.bind_eq_ok.mpr ⟨_, _, addOperation_eq_ok hsecond rfl, rfl⟩⟩)
  exact Eq.trans (definition_eq_ok rfl hresources rfl rfl rfl) rfl

/-- **A trait that is covered.** The first operation has a trait of the project, but at its place
there is no list of names. -/
theorem traits_covered :
    traitNames coveringProject.traits traitedEndpoint.traits = ["pagedList"]
      ∧ ∃ data declared, definition .v10 coveringProject = .ok data
        ∧ entryAt (segmentsOf traitedEndpoint.request.path) traitedEndpoint.request.method
          (.obj data) = some (.obj declared)
        ∧ ∀ names, Entries.get? declared "is" ≠ (Value.texts names).given? := by
  refine ⟨rfl, _, [("is", .obj [])], definition_covering, rfl, fun names hnames => ?_⟩
  have hlist : (Value.texts names).given? = some (.obj []) := hnames.symm
  unfold Value.given? at hlist
  split at hlist <;> cases hlist

end Ramlify.Raml
