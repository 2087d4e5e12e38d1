import Ramlify.Proofs.Raml.CoveredDefinition
import Ramlify.Proofs.StoredRequest
import Ramlify.Raml.Exporter

/-!
# Ramlify — the declared annotations are those that occur

A definition declares annotations once, from the record of what was written. Written annotations
can disappear again: parameters are left out, methods replace one another in the tree, members with
nothing in them are taken away. Two invariants meet here:

* every annotation name of the definition is of a recorded kind (`Covered`, step by step through the
  head, the tree of resources and the declarations);
* the record is cut down to the kinds that the walk over the definition finds.

**`annotationTypes_exact`** puts them together: the declared kinds are, each once, those that occur.
-/

namespace Ramlify.Raml

/-! ## The declarations

The record is cut down to the kinds that occur, and these are declared in a member of the
definition. That member is not counted among the places where annotations occur, since its names are
the kinds themselves. -/

/-- A definition without its declarations of annotations. -/
def apartFromDeclarations (m : Members) : Members :=
  m.filter fun member => member.1 != "annotationTypes"

/-- An annotation of a kind stands somewhere in a definition, apart from the declarations. -/
def Annotated (m : Members) (kind : String) : Prop :=
  (Value.obj (apartFromDeclarations m)).HasName (annotationName kind)

/-- A definition declares the annotations that occur in it, each once, and none if none occurs. -/
structure DeclaresOccurring (m : Members) : Prop where
  absent_iff : Entries.get? m "annotationTypes" = none ↔ ∀ kind, ¬ Annotated m kind
  declared : ∀ v, Entries.get? m "annotationTypes" = some v → ∃ kinds : Members,
    v = .obj kinds ∧ (Entries.keys kinds).Nodup
      ∧ ∀ k, k ∈ Entries.keys kinds ↔ ∃ kind, k = declaredKind kind ∧ Annotated m kind

/-- Without declarations there is nothing to leave out. -/
theorem apartFromDeclarations_of_not_mem {m : Members} (h : "annotationTypes" ∉ Entries.keys m) :
    apartFromDeclarations m = m := by
  refine List.filter_eq_self.mpr fun member hmember => ?_
  rw [bne_iff_ne]
  intro heq
  exact h (heq ▸ List.mem_map_of_mem hmember)

/-- What is left of a record are the kinds that occur: what occurs was recorded. -/
theorem mem_keepOccurring {a : Annotations} {m : Members} (h : Covered a m) (k : String) :
    k ∈ (a.keepOccurring (.obj m)).kinds
      ↔ ∃ kind, k = declaredKind kind ∧ (Value.obj m).HasName (annotationName kind) := by
  rw [Annotations.keepOccurring, List.mem_filter, List.contains_iff_mem, mem_occurringKinds_iff]
  constructor
  · exact And.right
  · rintro ⟨kind, rfl, hname⟩
    exact ⟨Value.allNames_obj_iff.mpr h.names _ hname kind rfl, kind, rfl, hname⟩

/-- One declaration for each kind in the record. -/
theorem keys_declarations (a : Annotations) : Entries.keys a.declarations = a.kinds := by
  rw [Annotations.declarations, Entries.keys, List.map_map]
  exact List.map_id _

/-- Without anything to declare a definition stays as it is. -/
theorem withDeclarations_of_nil {a : Annotations} {m : Members}
    (h : (a.keepOccurring (.obj m)).declarations = []) : withDeclarations m a = m := by
  unfold withDeclarations
  rw [h]

/-- The declarations stand between the head and the resources. -/
theorem withDeclarations_eq {a : Annotations} {m : Members} (h : Covered a m)
    (hdeclared : (a.keepOccurring (.obj m)).declarations ≠ []) :
    withDeclarations m a = m.filter (!isResource ·)
      ++ ("annotationTypes", .obj (a.keepOccurring (.obj m)).declarations)
        :: m.filter isResource := by
  have hhead := h.filter (!isResource ·)
  unfold withDeclarations
  split
  · next hnil => exact absurd hnil hdeclared
  · dsimp only
    rw [Entries.put_of_not_mem _ hhead.undeclared, Entries.putAll_of_disjoint,
      List.append_assoc, List.singleton_append]
    · exact h.nodup.sublist (List.filter_sublist.map _)
    · intro key hkey hmem
      obtain ⟨resource, hresource, rfl⟩ := List.mem_map.mp hkey
      have hslash := (List.mem_filter.mp hresource).2
      rw [Entries.keys, List.map_append, List.mem_append] at hmem
      -- What stands before is no resource, and neither are the declarations.
      rcases hmem with hbefore | hself
      · obtain ⟨other, hother, hsame⟩ := List.mem_map.mp hbefore
        have hplain := (List.mem_filter.mp hother).2
        rw [isResource, hsame] at hplain
        rw [isResource] at hslash
        rw [hslash] at hplain
        cases hplain
      · rw [List.map_singleton, List.mem_singleton] at hself
        rw [isResource, hself] at hslash
        exact absurd hslash (by simp)

/-- Which names occur does not depend on the order of the members. -/
theorem hasName_congr {m m' : Members} (h : ∀ member, member ∈ m ↔ member ∈ m') {name : String} :
    (Value.obj m).HasName name → (Value.obj m').HasName name := by
  intro hname
  cases hname with
  | here hmem => exact .here ((h _).mp hmem)
  | member hmem hv => exact .member ((h _).mp hmem) hv

/-- Putting in the declarations leaves the rest of a definition as it is, up to its order. -/
theorem annotated_withDeclarations {a : Annotations} {m : Members} (h : Covered a m)
    (kind : String) : Annotated (withDeclarations m a) kind
      ↔ (Value.obj m).HasName (annotationName kind) := by
  -- Without declarations nothing is moved; with them the resources are moved to the end.
  by_cases hdeclared : (a.keepOccurring (.obj m)).declarations = []
  · rw [Annotated, withDeclarations_of_nil hdeclared, apartFromDeclarations_of_not_mem h.undeclared]
  · have hrest : apartFromDeclarations (withDeclarations m a)
        = m.filter (!isResource ·) ++ m.filter isResource := by
      have hhead := (h.filter (!isResource ·)).undeclared
      have hresources := (h.filter isResource).undeclared
      rw [withDeclarations_eq h hdeclared, apartFromDeclarations, List.filter_append,
        List.filter_cons_of_neg (by simp)]
      rw [← apartFromDeclarations, ← apartFromDeclarations,
        apartFromDeclarations_of_not_mem hhead, apartFromDeclarations_of_not_mem hresources]
    have hmem : ∀ member : String × Value,
        member ∈ m.filter (!isResource ·) ++ m.filter isResource ↔ member ∈ m := by
      intro member
      rw [List.mem_append, List.mem_filter, List.mem_filter]
      cases isResource member <;> simp
    rw [Annotated, hrest]
    exact ⟨hasName_congr hmem, hasName_congr fun member => (hmem member).symm⟩

/-- The declarations of a definition are those kinds of the record that occur in it, and without any
of them the member is missing. -/
theorem get?_withDeclarations {a : Annotations} {m : Members} (h : Covered a m) :
    Entries.get? (withDeclarations m a) "annotationTypes"
      = if (a.keepOccurring (.obj m)).declarations = [] then none
        else some (.obj (a.keepOccurring (.obj m)).declarations) := by
  split
  · next hdeclared =>
    rw [withDeclarations_of_nil hdeclared]
    exact Entries.get?_eq_none_iff.mpr h.undeclared
  · next hdeclared =>
    rw [withDeclarations_eq h hdeclared, Entries.get?_append,
      Entries.get?_eq_none_iff.mpr (h.filter (!isResource ·)).undeclared, Option.none_or,
      Entries.get?_cons, if_pos rfl]

/-- Declaring from a record that covers a definition, without repetitions. -/
theorem declaresOccurring {a : Annotations} {m : Members} (h : Covered a m)
    (hnodup : a.kinds.Nodup) : DeclaresOccurring (withDeclarations m a) where
  absent_iff := by
    rw [get?_withDeclarations h]
    simp only [annotated_withDeclarations h]
    constructor
    · intro hnone kind hname
      -- A kind that occurs would be declared.
      have hkind := (mem_keepOccurring h _).mpr ⟨kind, rfl, hname⟩
      rw [← keys_declarations] at hkind
      split at hnone
      · next hnil =>
        rw [hnil] at hkind
        cases hkind
      · cases hnone
    · intro hnames
      refine if_pos (List.eq_nil_iff_forall_not_mem.mpr fun declaration hdeclaration => ?_)
      have hkey := List.mem_map_of_mem (f := (·.1)) hdeclaration
      rw [show (a.keepOccurring (.obj m)).declarations.map (·.1)
        = (a.keepOccurring (.obj m)).kinds from keys_declarations _, mem_keepOccurring h] at hkey
      obtain ⟨kind, _, hname⟩ := hkey
      exact hnames kind hname
  declared := by
    intro v hv
    rw [get?_withDeclarations h] at hv
    split at hv
    · cases hv
    · cases hv
      refine ⟨_, rfl, ?_, fun k => ?_⟩
      · rw [keys_declarations]
        exact hnodup.filter _
      · rw [keys_declarations, mem_keepOccurring h]
        simp only [annotated_withDeclarations h]

/-! ## What is exported

The two versions in one statement. Without annotations enabled the record is empty, and a covered
definition has no annotation names at all. -/

/-- What a definition says of the annotations in it: RAML 1.0 declares them, RAML 0.8 has none. -/
def Version.AnnotationsExact : Version → Members → Prop
  | .v10, m => DeclaresOccurring m
  | .v08, m => (∀ kind, ¬ (Value.obj m).HasName (annotationName kind))
      ∧ Entries.get? m "annotationTypes" = none

/-- Without annotations the record stays empty, so no name of the definition is one. -/
theorem Covered.noAnnotations {a : Annotations} {m : Members} (h : Covered a m)
    (hkinds : a.kinds = []) (kind : String) : ¬ (Value.obj m).HasName (annotationName kind) := by
  intro hname
  have hmem := Value.allNames_obj_iff.mpr h.names _ hname kind rfl
  rw [hkinds] at hmem
  cases hmem

/-- A definition that was made declares its annotations exactly. -/
theorem definition_annotationsExact {version : Version} {project : Project} {m : Members}
    (h : definition version project = .ok m) (hproject : ProjectUnmarked project)
    (hmethods : project.MethodsLowered) : version.AnnotationsExact m := by
  unfold definition at h
  obtain ⟨⟨made, written⟩, hrun, h⟩ := Outcome.bind_eq_ok.mp h
  cases h
  obtain ⟨hgrown, hcovered⟩ := covered_content hrun hproject hmethods
  cases version with
  | v10 => exact declaresOccurring hcovered (hgrown.nodup List.nodup_nil)
  | v08 =>
    -- Nothing is recorded where annotations are not enabled.
    have hkinds : written.kinds = [] := hgrown.silent rfl
    have hnone := hcovered.noAnnotations hkinds
    have hdeclared : (written.keepOccurring (.obj made)).declarations = [] := by
      refine List.eq_nil_iff_forall_not_mem.mpr fun declaration hdeclaration => ?_
      obtain ⟨k, hk, _⟩ := List.mem_map.mp hdeclaration
      obtain ⟨kind, _, hname⟩ := (mem_keepOccurring hcovered k).mp hk
      exact hnone kind hname
    rw [withDeclarations_of_nil hdeclared]
    exact ⟨hnone, Entries.get?_eq_none_iff.mpr hcovered.undeclared⟩

/-- **The declared annotations are those that occur.** An exporter that wrote a project holds a
definition that, in RAML 1.0, declares the kinds of the annotations that stand anywhere in the rest
of it, each once, and has no declarations if there are none. In RAML 0.8 there are neither
annotations nor declarations. The project itself must have no names of annotations; its methods are
in lower case like those of every project that was read (`methodsLowered_of_shape`). -/
theorem annotationTypes_exact {exporter : Exporter} {project : Project} {form text : String}
    (h : ((exporter.load project).write form).2 = .ok text) (hproject : ProjectUnmarked project)
    (hmethods : project.MethodsLowered) :
    ∃ m, ((exporter.load project).write form).1.data = some m
      ∧ exporter.version.AnnotationsExact m := by
  unfold Exporter.write Exporter.load at h ⊢
  dsimp only at h ⊢
  split at h
  · cases h
  · next m hdefinition =>
    exact ⟨m, rfl, definition_annotationsExact hdefinition hproject hmethods⟩

/-! ### An operation that is replaced with its annotation

Two operations of one path and method: the tags of the first one are written and recorded, and then
it is replaced. They are not declared. -/

/-- A request of nothing but a path and a method. -/
def plainRequest : Request where
  path := "/pets"
  method := "get"

/-- Two operations of one path and method, of which the second one stays. -/
def replacingProject : Project where
  endpoints := [{ tags := ["pet"], request := plainRequest },
    { deprecated := true, request := plainRequest }]

/-- What was recorded while the project was exported: also the annotation that is gone. -/
def replacedAnnotations : Annotations where
  kinds := ["oas-tags", "oas-deprecated"]

/-- The only resource of the project, with the operation that stayed. -/
def replacingTree : Members :=
  [("/pets", .obj [("displayName", .str "pets"),
    ("get", .obj [("(oas-deprecated)", .bool true)])])]

/-- A request without parameters is read as three empty objects. -/
theorem read_plainRequest : ∀ part ∈ [Request.Part.headers, .query, .pathParams],
    plainRequest.read part = .ok (.obj []) := by
  intro part hpart
  simp only [List.mem_cons, List.not_mem_nil, or_false] at hpart
  rcases hpart with rfl | rfl | rfl <;> exact Request.parse_emptyObject

set_option maxRecDepth 100000 in
/-- What the project becomes, before the record is cut down. -/
theorem definition_replacing :
    definition .v10 replacingProject
      = .ok (withDeclarations replacingTree replacedAnnotations) := by
  have hheaders := read_plainRequest .headers (by decide)
  have hquery := read_plainRequest .query (by decide)
  have hpath := read_plainRequest .pathParams (by decide)
  have hfirst : methodOf .v10 replacingProject (.str "")
      { tags := ["pet"], request := plainRequest } {}
      = .ok ([("(oas-tags)", .list [.str "pet"])], { kinds := ["oas-tags"] }) := by
    unfold methodOf addExchange
    dsimp only
    rw [hheaders, hquery, hpath]
    rfl
  have hsecond : methodOf .v10 replacingProject (.str "")
      { deprecated := true, request := plainRequest } { kinds := ["oas-tags"] }
      = .ok ([("(oas-deprecated)", .bool true)], replacedAnnotations) := by
    unfold methodOf addExchange
    dsimp only
    rw [hheaders, hquery, hpath]
    rfl
  -- Both operations stand under one key, so the second declaration replaces the first.
  have hresources : resources .v10 replacingProject (.str "") {}
      = .ok (replacingTree, replacedAnnotations) :=
    Pass.bind_eq_ok.mpr ⟨_, _, Pass.lift_eq_ok.mpr ⟨inDisplayOrder_nil _, rfl⟩,
      Pass.bind_eq_ok.mpr ⟨_, _, Pass.bind_eq_ok.mpr ⟨_, _,
        Pass.bind_eq_ok.mpr ⟨_, _, hfirst, rfl⟩,
        Pass.bind_eq_ok.mpr ⟨_, _, Pass.bind_eq_ok.mpr ⟨_, _, hsecond, rfl⟩, rfl⟩⟩, rfl⟩⟩
  have hcontent : content .v10 replacingProject {} = .ok (replacingTree, replacedAnnotations) :=
    Pass.bind_eq_ok.mpr ⟨header .v10 replacingProject, _, rfl,
      Pass.bind_eq_ok.mpr ⟨_, _, hresources, rfl⟩⟩
  exact Outcome.bind_eq_ok.mpr ⟨_, hcontent, rfl⟩

/-- The request has no annotation names in it. -/
theorem plainRequest_unmarked : RequestUnmarked plainRequest := by
  have hempty : TextUnmarked "{}" := by
    intro v h
    rw [← Except.ok.inj (Request.parse_emptyObject.symm.trans h), Value.allNames_obj_iff]
    exact Members.allNames_nil
  exact ⟨unmarked_of_head (by decide), hempty, hempty, hempty, List.forall_mem_nil _⟩

/-- The project has no annotation names in it. -/
theorem replacingProject_unmarked : ProjectUnmarked replacingProject where
  endpoints := by
    refine List.forall_mem_cons.mpr ⟨?_, List.forall_mem_singleton.mpr ?_⟩
    all_goals exact ⟨plainRequest_unmarked, List.forall_mem_nil _, List.forall_mem_nil _,
      List.forall_mem_nil _, Members.allNames_nil, Members.allNames_nil⟩
  schemas := List.forall_mem_nil _
  traits := List.forall_mem_nil _
  environment :=
    { consumes := List.forall_mem_nil _
      produces := List.forall_mem_nil _
      securitySchemes :=
        { oauth2 := by intro _ _ h; cases h
          basic := by intro _ _ h; cases h
          apiKey := by intro _ _ h; cases h }
      externalDocs := by intro _ h; cases h
      contact := by intro _ h; cases h
      license := by intro _ h; cases h
      extensions := Members.allNames_nil }
  extensions := Members.allNames_nil
  endpointExtensions := Members.allNames_nil
  tags := List.forall_mem_nil _

/-- The exported project declares exactly the annotations in it. -/
theorem annotationTypes_exact_replacing :
    ∃ m, (((Exporter.mk .v10 none none).load replacingProject).write "yaml").1.data = some m
      ∧ Version.v10.AnnotationsExact m := by
  have hwritten : (((Exporter.mk .v10 none none).load replacingProject).write "yaml").2
      = .ok (document .v10 (withDeclarations replacingTree replacedAnnotations)) := by
    unfold Exporter.write Exporter.load
    dsimp only
    rw [definition_replacing]
    rfl
  have hlowered : plainRequest.Lowered := ⟨"get", by decide +kernel⟩
  exact annotationTypes_exact hwritten replacingProject_unmarked
    (List.forall_mem_cons.mpr ⟨hlowered, List.forall_mem_singleton.mpr hlowered⟩)

end Ramlify.Raml
