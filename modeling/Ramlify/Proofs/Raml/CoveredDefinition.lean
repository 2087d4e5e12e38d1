import Ramlify.Proofs.Lowercase
import Ramlify.Proofs.LoweredMethods
import Ramlify.Proofs.Raml.AnnotatedMethod
import Ramlify.Proofs.Raml.AnnotatedTree
import Ramlify.Proofs.Raml.DisplayOrder
import Ramlify.Raml.Definition

/-!
# Ramlify — what is written is recorded

A definition is made step by step: the head, the tree of resources, the declarations of types and
traits. `Covered` is the invariant that all of these steps keep: the annotation names of what has
been made so far are of kinds that were recorded, and no annotations are declared yet. `Opened` adds
what the later steps need to know of the head, its media types.

* **`opened_opening`** — the head.
* **`covered_resources`** — the tree of resources, operation by operation.
* **`covered_content`** — all of a definition but the declarations of its annotations.
-/

namespace Ramlify.Raml

/-! ## Definitions in the making

The invariant has three parts, and the last of them keeps a place free: `annotationTypes` is put in
the end, and until then nothing else may stand there. -/

/-- The members of a definition before its annotations are declared: each name stands once, and the
annotation names at all depths are of kinds that were recorded. -/
structure Covered (a : Annotations) (m : Members) : Prop where
  names : m.AllNames (Declared a.kinds)
  nodup : (Entries.keys m).Nodup
  undeclared : "annotationTypes" ∉ Entries.keys m

/-- A name without a bracket in front is no annotation name. -/
theorem annotationName_ne {name : String} (h : name.toList.head? ≠ some '(') (kind : String) :
    annotationName kind ≠ name :=
  fun heq => unmarked_of_head h kind heq.symm

namespace Covered

variable {a a' : Annotations} {m m' : Members}

theorem grown (h : Covered a m) (hgrown : Grown a a') : Covered a' m :=
  ⟨hgrown.declared h.names, h.nodup, h.undeclared⟩

/-- Putting a member with a name that is covered and not that of the declarations. -/
theorem put (h : Covered a m) {name : String} {v : Value} (hname : Declared a.kinds name)
    (hne : "annotationTypes" ≠ name) (hv : v.AllNames (Declared a.kinds)) :
    Covered a (Entries.put m name v) where
  names := h.names.put hname hv
  nodup := Entries.nodup_keys_put h.nodup _ _
  undeclared := fun hmem => (Entries.mem_keys_put.mp hmem).elim hne h.undeclared

theorem filter (h : Covered a m) (p : String × Value → Bool) : Covered a (m.filter p) where
  names := h.names.filter p
  nodup := h.nodup.sublist (List.filter_sublist.map _)
  undeclared := fun hmem => h.undeclared ((List.filter_sublist.map _).subset hmem)

/-- Putting the members of another definition in the making. -/
theorem putAll (h : Covered a m) {more : Members} (hmore : Covered a more) :
    Covered a (Entries.putAll m more) where
  names := h.names.putAll hmore.names
  nodup := Entries.nodup_keys_putAll h.nodup more
  undeclared := by
    intro hmem
    -- An entry of the joined members is one of either side.
    obtain ⟨⟨name, v⟩, hentry, rfl⟩ := List.mem_map.mp hmem
    rcases Entries.mem_putAll hentry with hright | hleft
    · exact hmore.undeclared (List.mem_map_of_mem hright)
    · exact h.undeclared (List.mem_map_of_mem hleft)

/-- Writing an annotation, with the record that has its kind. -/
theorem annotate (h : Covered a m) (kind : String) {v : Value}
    (hv : v.AllNames (Declared a.kinds)) :
    Covered (a.annotate m kind v).2 (a.annotate m kind v).1 := by
  have hnames := annotate_declared kind h.names hv
  have hgrown := grown_annotate a m kind v
  unfold Annotations.annotate at hnames hgrown ⊢
  split at hnames
  · next henabled =>
    rw [if_pos henabled] at hgrown ⊢
    exact (h.grown hgrown).put (declared_annotationName (mem_record a kind))
      (annotationName_ne (by simp) kind).symm (hgrown.declaredValue hv)
  · next henabled =>
    rw [if_neg henabled]
    exact h

theorem annotateAll {extensions : Members} (hext : extensions.AllNames Unmarked) :
    ∀ {a : Annotations} {m : Members}, Covered a m →
      Covered (a.annotateAll m extensions).2 (a.annotateAll m extensions).1 := by
  unfold Annotations.annotateAll
  -- The record grows from extension to extension, so it is general in the induction.
  induction extensions with
  | nil => exact id
  | cons extension rest ih =>
    obtain ⟨kind, v⟩ := extension
    obtain ⟨⟨_, hv⟩, hrest⟩ := Members.allNames_cons_iff.mp hext
    intro a m h
    rw [List.foldl_cons]
    exact ih hrest (h.annotate kind (declaredValue_of_unmarked hv a.kinds))

end Covered

/-- A definition in the making whose head names some media types. -/
structure Opened (a : Annotations) (mediaType : Value) (m : Members) : Prop
    extends Covered a m where
  typed : Members.find m "mediaType" = mediaType

namespace Opened

variable {a a' : Annotations} {mediaType : Value} {m m' : Members}

/-- A member of another name stays as it is. -/
theorem find_put_of_ne (m : Members) {name other : String} (v : Value) (h : name ≠ other) :
    Members.find (Entries.put m name v) other = Members.find m other := by
  rw [Members.find, Entries.get?_put_of_ne m v h]
  rfl

theorem grown (h : Opened a mediaType m) (hgrown : Grown a a') : Opened a' mediaType m :=
  ⟨h.toCovered.grown hgrown, h.typed⟩

/-- Putting a member that is neither an annotation nor one of the two names that are kept. -/
theorem put (h : Opened a mediaType m) {name : String} {v : Value}
    (hname : name.toList.head? ≠ some '(') (hne : name ∉ ["annotationTypes", "mediaType"])
    (hv : v.AllNames (Declared a.kinds)) : Opened a mediaType (Entries.put m name v) := by
  simp only [List.mem_cons, List.not_mem_nil, or_false, not_or] at hne
  refine ⟨h.toCovered.put ((unmarked_of_head hname).declared _) (Ne.symm hne.1) hv, ?_⟩
  rw [find_put_of_ne m v hne.2, h.typed]

theorem putGiven (h : Opened a mediaType m) {name : String} {v : Value}
    (hname : name.toList.head? ≠ some '(') (hne : name ∉ ["annotationTypes", "mediaType"])
    (hv : v.AllNames (Declared a.kinds)) : Opened a mediaType (Members.putGiven m name v) := by
  unfold Members.putGiven
  split
  · exact h
  · exact h.put hname hne hv

/-- Writing an annotation as a part of a pass. -/
theorem annotate {kind : String} {v : Value} (h : Opened a mediaType m)
    (hv : v.AllNames (Declared a.kinds))
    (hrun : Raml.annotate m kind v a = .ok (m', a')) : Grown a a' ∧ Opened a' mediaType m' := by
  have heq : a.annotate m kind v = (m', a') := Except.ok.inj hrun
  have hgrown := grown_annotate a m kind v
  have hcovered := h.toCovered.annotate kind hv
  rw [heq] at hgrown hcovered
  refine ⟨hgrown, hcovered, ?_⟩
  -- An annotation is no media type, whether it is written or not.
  unfold Annotations.annotate at heq
  split at heq
  · cases heq
    rw [find_put_of_ne m v (annotationName_ne (by simp) kind), h.typed]
  · cases heq
    exact h.typed

theorem annotateGiven {kind : String} {v : Value} (h : Opened a mediaType m)
    (hv : v.AllNames (Declared a.kinds))
    (hrun : Raml.annotateGiven m kind v a = .ok (m', a')) :
    Grown a a' ∧ Opened a' mediaType m' := by
  unfold Raml.annotateGiven at hrun
  split at hrun
  · cases hrun
    exact ⟨Grown.refl a, h⟩
  · exact h.annotate hv hrun

end Opened

/-! ## The head

The parts of the head in the order in which they are made. -/

/-- Of some named texts those that are given. -/
theorem allNames_givenTexts {named : List (String × Option String)}
    (h : ∀ pair ∈ named, Unmarked pair.1) : (givenTexts named).AllNames Unmarked := by
  unfold givenTexts
  have hnil : Members.AllNames Unmarked [] := Members.allNames_nil
  -- What was put before is general: any members without annotations will do.
  generalize ([] : Members) = before at hnil
  induction named generalizing before with
  | nil => exact hnil
  | cons pair named ih =>
    rw [List.foldl_cons]
    exact ih (fun other hother => h other (List.mem_cons_of_mem _ hother)) _
      (hnil.putGiven (h pair List.mem_cons_self) (Value.allNames_ofText? _))

theorem allNames_mediaType (version : Version) (consumes produces : List String) :
    (version.mediaType consumes produces).AllNames Unmarked := by
  unfold Version.mediaType
  split
  · exact Value.allNames_str _
  · split
    · exact Value.allNames_str _
    · exact Value.allNames_str _
    · exact Value.allNames_texts _

/-- The first members of the head; the media types are put before the protocols, and nothing later
changes them. -/
theorem opened_header (version : Version) (project : Project) (a : Annotations) :
    Opened a (version.mediaType project.environment.consumes project.environment.produces)
      (header version project) := by
  have hstart : Covered a [("title", Value.str project.name),
      ("version", Value.ofText? project.environment.version)] := by
    refine ⟨?_, by simp [Entries.keys], by simp [Entries.keys]⟩
    simp only [Members.allNames_cons_iff]
    exact ⟨⟨(unmarked_of_head (by simp)).declared _, Value.allNames_str _⟩,
      ⟨(unmarked_of_head (by simp)).declared _, Value.allNames_ofText? _⟩, Members.allNames_nil⟩
  have haddressed : Covered a (Members.putGiven [("title", Value.str project.name),
      ("version", Value.ofText? project.environment.version)] "baseUri"
      (.str (project.environment.host ++ project.environment.basePath))) := by
    unfold Members.putGiven
    split
    · exact hstart
    · exact hstart.put ((unmarked_of_head (by simp)).declared _) (by decide)
        (Value.allNames_str _)
  unfold header
  -- The media types have just been put, so they are what is found.
  refine Opened.putGiven ⟨haddressed.put ((unmarked_of_head (by simp)).declared _) (by decide)
    (declaredValue_of_unmarked (allNames_mediaType _ _ _) _), ?_⟩ (by simp) (by decide)
    (Value.allNames_texts _)
  rw [Members.find, Entries.get?_put_self]
  rfl

theorem allNames_section (title content : String) :
    (Value.obj [("title", .str title), ("content", .str content)]).AllNames Unmarked := by
  simp only [Value.allNames_obj_iff, Members.allNames_cons_iff]
  exact ⟨⟨unmarked_of_head (by simp), Value.allNames_str _⟩,
    ⟨unmarked_of_head (by simp), Value.allNames_str _⟩, Members.allNames_nil⟩

section

variable {a a' : Annotations} {mediaType : Value} {m m' : Members}

/-- A description stands in a member of its own or among the documentation, by version. -/
theorem opened_addDescription {version : Version} {description : String}
    (h : version.addDescription m description = .ok m') (hm : Opened a mediaType m) :
    Opened a mediaType m' := by
  have hsections : ∀ sections : List Value, (∀ v ∈ sections, v.AllNames (Declared a.kinds)) →
      Opened a mediaType (Entries.put m "documentation" (.list
        (.obj [("title", .str "Description"), ("content", .str description)] :: sections))) := by
    intro sections hall
    refine hm.put (by simp) (by decide) (Value.allNames_list_iff.mpr fun v hv => ?_)
    rcases List.mem_cons.mp hv with rfl | hv
    · exact declaredValue_of_unmarked (allNames_section _ _) _
    · exact hall v hv
  unfold Version.addDescription at h
  split at h
  · cases h
    exact hm
  · split at h
    · cases h
      exact hm.put (by simp) (by decide) (Value.allNames_str _)
    · dsimp only at h
      -- Sections that a definition has already are covered with the definition.
      split at h
      · cases h
        exact hsections [] (List.forall_mem_nil _)
      · next before hbefore =>
        cases h
        exact hsections before (Value.allNames_list_iff.mp (hm.names.get? hbefore))
      · cases h

/-- Sections of documentation are put behind those that stand there already. -/
theorem opened_addSections {texts : List Section} (h : addSections texts m = .ok m')
    (hm : Opened a mediaType m) : Opened a mediaType m' := by
  have hsections : ∀ before : List Value, (∀ v ∈ before, v.AllNames (Declared a.kinds)) →
      Opened a mediaType
        (Entries.put m "documentation" (.list (before ++ sections texts))) := by
    intro before hall
    refine hm.put (by simp) (by decide) (Value.allNames_list_iff.mpr fun v hv => ?_)
    rcases List.mem_append.mp hv with hv | hv
    · exact hall v hv
    · obtain ⟨text, _, rfl⟩ := List.mem_map.mp hv
      exact declaredValue_of_unmarked (allNames_section _ _) _
  unfold addSections at h
  split at h
  · cases h
    exact hm
  · dsimp only at h
    split at h
    · cases h
      exact hsections [] (List.forall_mem_nil _)
    · -- The documentation so far is part of the definition so far, so it is covered.
      next before hbefore =>
      cases h
      exact hsections before (Value.allNames_list_iff.mp (hm.names.get? hbefore))
    · cases h

theorem contactFields_declared {contact : Contact} {fields : Members}
    (h : contactFields contact a = .ok (fields, a'))
    (hext : contact.extensions.AllNames Unmarked) : Recorded a a' fields := by
  refine pass_annotateAll h (declared_of_unmarked (allNames_givenTexts ?_) _) hext
  simp only [List.forall_mem_cons, List.not_mem_nil, false_implies, implies_true, and_true]
  exact ⟨unmarked_of_head (by simp), unmarked_of_head (by simp), unmarked_of_head (by simp)⟩

/-- The terms of use, with their extensions. -/
theorem licenseFields_declared {license : License} {fields : Members}
    (h : licenseFields license a = .ok (fields, a'))
    (hext : license.extensions.AllNames Unmarked) : Recorded a a' fields := by
  refine pass_annotateAll h (declared_of_unmarked (allNames_givenTexts ?_) _) hext
  simp only [List.forall_mem_cons, List.not_mem_nil, false_implies, implies_true, and_true]
  exact ⟨unmarked_of_head (by simp), unmarked_of_head (by simp)⟩

/-- Adds whom to turn to. -/
def addContact (env : Environment) (m : Members) : Pass Members :=
  match env.contact with
  | none => return m
  | some contact => return Entries.put m "contact" (.obj (← contactFields contact))

/-- Adds the terms of an API. -/
def addTerms (env : Environment) (m : Members) : Pass Members :=
  let m := Members.putGiven m "termsOfService" (Value.ofText? env.termsOfService)
  match env.license with
  | none => return m
  | some license => return Entries.put m "license" (.obj (← licenseFields license))

/-- What is said of an API is made in three steps. -/
theorem info_eq (env : Environment) :
    info env = annotateAll [] env.extensions >>= fun m => addContact env m >>= addTerms env := by
  unfold info addContact
  cases env.contact <;> rfl

/-- The first of them puts whom to turn to, if that is known. -/
theorem addContact_declared {env : Environment} (h : addContact env m a = .ok (m', a'))
    (henv : EnvironmentUnmarked env) (hm : m.AllNames (Declared a.kinds)) :
    Recorded a a' m' := by
  unfold addContact at h
  cases hgiven : env.contact with
  | none =>
    rw [hgiven] at h
    cases h
    exact ⟨Grown.refl _, hm⟩
  | some contact =>
    rw [hgiven] at h
    obtain ⟨fields, a₁, hfields, hput⟩ := Pass.bind_eq_ok.mp h
    cases hput
    obtain ⟨hgrown, hall⟩ := contactFields_declared hfields (henv.contact contact hgiven)
    exact ⟨hgrown, (hgrown.declared hm).put ((unmarked_of_head (by simp)).declared _)
      (Value.allNames_obj_iff.mpr hall)⟩

/-- The second one puts the terms, and the license if there is one. -/
theorem addTerms_declared {env : Environment} (h : addTerms env m a = .ok (m', a'))
    (henv : EnvironmentUnmarked env) (hm : m.AllNames (Declared a.kinds)) :
    Recorded a a' m' := by
  have hname : Unmarked "termsOfService" := unmarked_of_head (by simp)
  have htermed := hm.putGiven (hname.declared _) (Value.allNames_ofText? env.termsOfService)
  unfold addTerms at h
  cases hgiven : env.license with
  | none =>
    rw [hgiven] at h
    cases h
    exact ⟨Grown.refl _, htermed⟩
  | some license =>
    rw [hgiven] at h
    obtain ⟨fields, a₁, hfields, hput⟩ := Pass.bind_eq_ok.mp h
    cases hput
    obtain ⟨hgrown, hall⟩ := licenseFields_declared hfields (henv.license license hgiven)
    exact ⟨hgrown, (hgrown.declared htermed).put ((unmarked_of_head (by simp)).declared _)
      (Value.allNames_obj_iff.mpr hall)⟩

/-- What is said of an API is covered by the record it leaves. -/
theorem info_declared {env : Environment} (h : info env a = .ok (m, a'))
    (henv : EnvironmentUnmarked env) : Recorded a a' m := by
  rw [info_eq] at h
  obtain ⟨extended, a₁, hextended, h₁⟩ := Pass.bind_eq_ok.mp h
  obtain ⟨hgrown₁, hall₁⟩ := pass_annotateAll hextended Members.allNames_nil henv.extensions
  obtain ⟨contacted, a₂, hcontacted, h₂⟩ := Pass.bind_eq_ok.mp h₁
  obtain ⟨hgrown₂, hall₂⟩ := addContact_declared hcontacted henv hall₁
  obtain ⟨hgrown₃, hall₃⟩ := addTerms_declared h₂ henv hall₂
  exact ⟨(hgrown₁.trans hgrown₂).trans hgrown₃, hall₃⟩

/-- What is said of an API is written as an annotation, if there is anything to say. -/
theorem opened_addApiInfo {env : Environment} (h : addApiInfo env m a = .ok (m', a'))
    (henv : EnvironmentUnmarked env) (hm : Opened a mediaType m) :
    Grown a a' ∧ Opened a' mediaType m' := by
  unfold addApiInfo at h
  obtain ⟨fields, a₁, hfields, hrest⟩ := Pass.bind_eq_ok.mp h
  obtain ⟨hgrown, hall⟩ := info_declared hfields henv
  obtain ⟨hgrown', hopened⟩ :=
    (hm.grown hgrown).annotateGiven (Value.allNames_obj_iff.mpr hall) hrest
  exact ⟨hgrown.trans hgrown', hopened⟩

/-- The page of documentation is written as an annotation as well. -/
theorem opened_addDocsPage {env : Environment} (h : addDocsPage env m a = .ok (m', a'))
    (henv : EnvironmentUnmarked env) (hm : Opened a mediaType m) :
    Grown a a' ∧ Opened a' mediaType m' := by
  unfold addDocsPage at h
  cases hgiven : env.externalDocs with
  | none =>
    rw [hgiven] at h
    cases h
    exact ⟨Grown.refl _, hm⟩
  | some docs =>
    rw [hgiven] at h
    obtain ⟨fields, a₁, hfields, hrest⟩ := Pass.bind_eq_ok.mp h
    have htexts : Members.AllNames Unmarked
        (givenTexts [("description", docs.description)] ++ [("url", .str docs.url)]) := by
      refine Members.AllNames.append (allNames_givenTexts ?_) ?_
      · simp only [List.forall_mem_cons, List.not_mem_nil, false_implies, implies_true, and_true]
        exact unmarked_of_head (by simp)
      · exact Members.allNames_cons_iff.mpr
          ⟨⟨unmarked_of_head (by simp), Value.allNames_str _⟩, Members.allNames_nil⟩
    -- First the extensions of the page are written to its fields, then the page itself to the
    -- definition.
    obtain ⟨hgrown, hall⟩ := pass_annotateAll hfields (declared_of_unmarked htexts _)
      (henv.externalDocs docs hgiven)
    obtain ⟨hgrown', hopened⟩ :=
      (hm.grown hgrown).annotate (Value.allNames_obj_iff.mpr hall) hrest
    exact ⟨hgrown.trans hgrown', hopened⟩

/-- Extensions of the paths are written to the definition itself. -/
theorem opened_addPaths {extensions : Members} (h : addPaths extensions m a = .ok (m', a'))
    (hext : extensions.AllNames Unmarked) (hm : Opened a mediaType m) :
    Grown a a' ∧ Opened a' mediaType m' := by
  unfold addPaths at h
  obtain ⟨fields, a₁, hfields, hrest⟩ := Pass.bind_eq_ok.mp h
  obtain ⟨hgrown, hall⟩ := pass_annotateAll hfields Members.allNames_nil hext
  obtain ⟨hgrown', hopened⟩ :=
    (hm.grown hgrown).annotateGiven (Value.allNames_obj_iff.mpr hall) hrest
  exact ⟨hgrown.trans hgrown', hopened⟩

/-- The head of a definition, with all that stands before the resources. -/
theorem opened_opening {version : Version} {project : Project}
    (h : opening version project a = .ok (m, a')) (hproject : ProjectUnmarked project) :
    Grown a a' ∧ Opened a' (version.mediaType project.environment.consumes
      project.environment.produces) m := by
  have henv := hproject.environment
  unfold opening at h
  -- The steps in their order; each one keeps the invariant and lets the record grow.
  obtain ⟨described, a₁, hlift, h₁⟩ := Pass.bind_eq_ok.mp h
  obtain ⟨hdescribed, rfl⟩ := Pass.lift_eq_ok.mp hlift
  have hopened := opened_addDescription hdescribed (opened_header version project a₁)
  have htags : (Value.list (project.tags.map .obj)).AllNames (Declared a₁.kinds) := by
    rw [Value.allNames_list_iff]
    intro v hv
    obtain ⟨tag, htag, rfl⟩ := List.mem_map.mp hv
    exact Value.allNames_obj_iff.mpr (declared_of_unmarked (hproject.tags tag htag) _)
  obtain ⟨tagged, a₂, htagged, h₂⟩ := Pass.bind_eq_ok.mp h₁
  obtain ⟨hgrown₁, hopened₁⟩ := hopened.annotateGiven htags htagged
  obtain ⟨informed, a₃, hinformed, h₃⟩ := Pass.bind_eq_ok.mp h₂
  obtain ⟨hgrown₂, hopened₂⟩ := opened_addApiInfo hinformed henv hopened₁
  obtain ⟨paged, a₄, hpaged, h₄⟩ := Pass.bind_eq_ok.mp h₃
  obtain ⟨hgrown₃, hopened₃⟩ := opened_addDocsPage hpaged henv hopened₂
  obtain ⟨sectioned, a₅, hlift, h₅⟩ := Pass.bind_eq_ok.mp h₄
  obtain ⟨hsectioned, rfl⟩ := Pass.lift_eq_ok.mp hlift
  obtain ⟨hgrown₄, hopened₄⟩ := opened_addPaths h₅ hproject.endpointExtensions
    ((opened_addSections hsectioned hopened₃).putGiven (by simp) (by decide)
      (declaredValue_of_unmarked (allNames_securitySchemes? version henv.securitySchemes) _))
  exact ⟨((hgrown₁.trans hgrown₂).trans hgrown₃).trans hgrown₄, hopened₄⟩

end

/-! ## Resources and declarations

The tree of resources is made with the record that the head has left, and it is put behind the head.
Methods are in lower case, so none of them is called `annotationTypes`. -/

/-- A method in lower case is not the name of the declarations. -/
theorem lower_ne_annotationTypes (s : String) : Unicode.lower s ≠ "annotationTypes" :=
  Unicode.lower_ne ⟨'T', by decide, by decide⟩ s

/-- The media type of an API is one of those that it consumes or produces. -/
theorem typeUnmarked_mediaType (version : Version) {env : Environment}
    (h : EnvironmentUnmarked env) :
    TypeUnmarked (version.mediaType env.consumes env.produces) := by
  have hempty : Unmarked "" := unmarked_of_head (by simp)
  have hall : ∀ type ∈ env.consumes ++ env.produces, Unmarked type := by
    intro type htype
    rcases List.mem_append.mp htype with htype | htype
    · exact h.consumes type htype
    · exact h.produces type htype
  unfold TypeUnmarked
  cases version with
  | v08 =>
    show Unmarked ((env.consumes ++ env.produces).headD "")
    cases htypes : env.consumes ++ env.produces with
    | nil => exact hempty
    | cons type types => exact hall type (by rw [htypes]; exact List.mem_cons_self)
  | v10 =>
    -- RAML 1.0 names each media type once, but still only those that are given.
    have hkeys : ∀ type ∈ Entries.keys (Entries.ofList
        ((env.consumes ++ env.produces).map fun type => (type, ()))), Unmarked type := by
      intro type htype
      obtain ⟨⟨other, _⟩, hentry, rfl⟩ := List.mem_map.mp htype
      obtain ⟨given, hgiven, heq⟩ := List.mem_map.mp (Entries.mem_ofList hentry)
      cases heq
      exact hall _ hgiven
    dsimp only [Version.mediaType]
    generalize Entries.keys (Entries.ofList
      ((env.consumes ++ env.produces).map fun type => (type, ()))) = types at hkeys ⊢
    rcases types with _ | ⟨first, _ | ⟨second, more⟩⟩
    · exact hempty
    · exact hkeys first List.mem_cons_self
    · exact hkeys first List.mem_cons_self

theorem covered_addOperation {version : Version} {project : Project} {mediaType result : Value}
    {tree : Members} {e : Endpoint} {a a' : Annotations}
    (h : addOperation version project mediaType (.obj tree) e a = .ok (result, a'))
    (he : EndpointUnmarked e) (htype : TypeUnmarked mediaType)
    (hschemes : SchemesUnmarked project.environment.securitySchemes)
    (hmethod : "annotationTypes" ≠ e.request.method) (htree : Covered a tree) :
    ∃ after, result = .obj after ∧ Grown a a' ∧ Covered a' after := by
  unfold addOperation at h
  obtain ⟨method, a₁, hrun, hrest⟩ := Pass.bind_eq_ok.mp h
  obtain ⟨hgrown, hall⟩ := methodOf_declared hrun he htype hschemes
  obtain ⟨hplaced, rfl⟩ := Pass.lift_eq_ok.mp hrest
  unfold placeMethod at hplaced
  split at hplaced
  · next hinserted =>
    cases hplaced
    obtain ⟨after, rfl, hnodup, htop⟩ := insertMethod_top hinserted
    have hnames := allNames_insertMethod (he.request.method.declared _)
      (Value.allNames_obj_iff.mpr hall) _ hinserted
      (Value.allNames_obj_iff.mpr (hgrown.declared htree.names))
    refine ⟨after, rfl, hgrown, Value.allNames_obj_iff.mp hnames, hnodup htree.nodup, ?_⟩
    -- A new name at the top would be the key, the parameters or a resource.
    intro hmem
    rcases htop _ hmem with hbefore | hkey | hparameters | ⟨segment, hsegment⟩
    · exact htree.undeclared hbefore
    · exact hmethod hkey
    · exact absurd hparameters (by decide)
    · exact resourceKey_ne (by simp) segment hsegment.symm
  · cases hplaced

/-- Operations are put in the tree one after another. -/
theorem covered_operations {version : Version} {project : Project} {mediaType result : Value}
    (htype : TypeUnmarked mediaType)
    (hschemes : SchemesUnmarked project.environment.securitySchemes) (operations : List Endpoint) :
    ∀ {tree : Members} {a a' : Annotations},
      operations.foldlM (addOperation version project mediaType) (.obj tree) a
        = .ok (result, a') →
      (∀ e ∈ operations, EndpointUnmarked e ∧ "annotationTypes" ≠ e.request.method) →
      Covered a tree → ∃ after, result = .obj after ∧ Grown a a' ∧ Covered a' after := by
  -- Over the operations; the tree and the record before are general, one operation changes both.
  induction operations with
  | nil =>
    intro tree a a' h _ htree
    cases h
    exact ⟨tree, rfl, Grown.refl _, htree⟩
  | cons e operations ih =>
    intro tree a a' h hall htree
    rw [List.foldlM_cons] at h
    obtain ⟨next, a₁, hnext, hrest⟩ := Pass.bind_eq_ok.mp h
    obtain ⟨he, hmethod⟩ := hall e List.mem_cons_self
    obtain ⟨after, rfl, hgrown, hcovered⟩ :=
      covered_addOperation hnext he htype hschemes hmethod htree
    obtain ⟨final, hfinal, hgrown', hcovered'⟩ :=
      ih hrest (fun other hother => hall other (List.mem_cons_of_mem _ hother)) hcovered
    exact ⟨final, hfinal, hgrown.trans hgrown', hcovered'⟩

theorem covered_resources {version : Version} {project : Project} {mediaType : Value}
    {a a' : Annotations} {tree : Members}
    (h : resources version project mediaType a = .ok (tree, a'))
    (hproject : ProjectUnmarked project) (hmethods : project.MethodsLowered)
    (htype : TypeUnmarked mediaType) : Grown a a' ∧ Covered a' tree := by
  unfold resources at h
  obtain ⟨ordered, a₁, hlift, h₁⟩ := Pass.bind_eq_ok.mp h
  obtain ⟨hordered, rfl⟩ := Pass.lift_eq_ok.mp hlift
  obtain ⟨result, a₂, hresult, h₂⟩ := Pass.bind_eq_ok.mp h₁
  obtain ⟨hmembers, rfl⟩ := Pass.lift_eq_ok.mp h₂
  have hempty : Covered a₁ [] := ⟨Members.allNames_nil, List.nodup_nil, nofun⟩
  -- The operations are those of the project in another order.
  have hall : ∀ e ∈ ordered, EndpointUnmarked e ∧ "annotationTypes" ≠ e.request.method := by
    intro e he
    have he := (mem_inDisplayOrder hordered).mp he
    obtain ⟨s, hs⟩ := hmethods e he
    rw [hs]
    exact ⟨hproject.endpoints e he, (lower_ne_annotationTypes s).symm⟩
  obtain ⟨after, rfl, hgrown, hcovered⟩ :=
    covered_operations htype hproject.environment.securitySchemes ordered hresult hall hempty
  cases hmembers
  exact ⟨hgrown, hcovered⟩

/-- Types are schemas after the two passes, which bring in no annotations. -/
theorem covered_addTypes {version : Version} {schemas : List NamedSchema} {a : Annotations}
    {m m' : Members} (h : addTypes version schemas m = .ok m')
    (hschemas : ∀ schema ∈ schemas, SchemaUnmarked schema) (hm : Covered a m) :
    Covered a m' := by
  unfold addTypes at h
  split at h
  · cases h
    exact hm
  · obtain ⟨declared, hdeclared, h⟩ := Outcome.bind_eq_ok.mp h
    cases h
    have hall := declaredValue_of_unmarked (allNames_declareSchemas hdeclared hschemas) a.kinds
    have hname : Unmarked version.schemasName := by
      cases version <;> exact unmarked_of_head (by simp [Version.schemasName])
    have hne : "annotationTypes" ≠ version.schemasName := by
      cases version <;> decide
    exact hm.put (hname.declared _) hne hall

/-- Traits are headers and parameters under names of words. -/
theorem covered_addTraits {version : Version} {mediaType : Value} {traits : List Trait}
    {a : Annotations} {m m' : Members} (h : addTraits version mediaType traits m = .ok m')
    (htraits : ∀ trait ∈ traits, TraitUnmarked trait) (htype : TypeUnmarked mediaType)
    (hm : Covered a m) : Covered a m' := by
  unfold addTraits at h
  split at h
  · cases h
    exact hm
  · obtain ⟨declared, hdeclared, h⟩ := Outcome.bind_eq_ok.mp h
    cases h
    unfold Members.putGiven
    split
    · exact hm
    · exact hm.put ((unmarked_of_head (by simp)).declared _) (by decide)
        (declaredValue_of_unmarked (allNames_traitDeclarations hdeclared htraits htype) _)

/-- **All annotation names of a definition are of recorded kinds.** -/
theorem covered_content {version : Version} {project : Project} {a a' : Annotations} {m : Members}
    (h : content version project a = .ok (m, a')) (hproject : ProjectUnmarked project)
    (hmethods : project.MethodsLowered) : Grown a a' ∧ Covered a' m := by
  unfold content at h
  obtain ⟨opened, a₁, hopening, h₁⟩ := Pass.bind_eq_ok.mp h
  obtain ⟨hgrown₁, hopened⟩ := opened_opening hopening hproject
  have htype : TypeUnmarked (Members.find opened "mediaType") := by
    rw [hopened.typed]
    exact typeUnmarked_mediaType version hproject.environment
  obtain ⟨tree, a₂, htree, h₂⟩ := Pass.bind_eq_ok.mp h₁
  obtain ⟨hgrown₂, hcovered⟩ := covered_resources htree hproject hmethods htype
  obtain ⟨typed, a₃, hlift, h₃⟩ := Pass.bind_eq_ok.mp h₂
  obtain ⟨htyped, rfl⟩ := Pass.lift_eq_ok.mp hlift
  obtain ⟨shared, a₄, hlift, h₄⟩ := Pass.bind_eq_ok.mp h₃
  obtain ⟨hshared, rfl⟩ := Pass.lift_eq_ok.mp hlift
  -- Head, declarations and tree are put together, and what is vacant is taken away.
  have hdeclared := covered_addTraits hshared hproject.traits htype
    (covered_addTypes htyped hproject.schemas (hopened.toCovered.grown hgrown₂))
  have hfilled := (hdeclared.putAll hcovered).filter fun member => !member.2.isVacant
  have hrun : Annotations.annotateAll a₄ ((Entries.putAll shared tree).filter fun member =>
      !member.2.isVacant) project.extensions = (m, a') := Except.ok.inj h₄
  have hfinal := Covered.annotateAll hproject.extensions hfilled
  have hgrown₃ := (annotateAll_declared hfilled.names hproject.extensions).1
  rw [hrun] at hfinal hgrown₃
  exact ⟨(hgrown₁.trans hgrown₂).trans hgrown₃, hfinal⟩

end Ramlify.Raml
