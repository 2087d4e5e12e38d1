import Ramlify.Proofs.Raml.AnnotatedMethod
import Ramlify.Proofs.Raml.MethodParts
import Ramlify.Raml.Definition

/-!
# Ramlify — whether annotations are written is settled once

A version either has annotations or it has none, and no part of a pass changes that. So all parts of
a definition are made in the same way, and where there are no annotations a declaration has no
members but those of fixed names.

* **`Steady`** — a part of a pass that leaves the switch as it is; **`steady_opening`** and
  **`steady_methodOf`** are the parts that a definition is made of.
* **`mem_declaredNames_of_methodOf`** — the members of a declaration without annotations.
-/

namespace Ramlify.Raml

variable {α β : Type}

/-! ## The switch

Whether annotations are written stands in the record that a pass carries along. The passes put
annotations together in a few ways, and each of these leaves the switch as it is. -/

/-- A part of a pass that leaves alone whether annotations are written. -/
def Steady (p : Pass α) : Prop := ∀ a b a', p a = .ok (b, a') → a'.enabled = a.enabled

namespace Steady

theorem pure (b : α) : Steady (Pure.pure b : Pass α) := by
  intro a _ a' h
  rw [(Pass.pure_eq_ok.mp h).2]

theorem lift (x : Outcome α) : Steady (liftM x : Pass α) := by
  intro a _ a' h
  rw [(Pass.lift_eq_ok.mp h).2]

theorem bind {p : Pass α} {f : α → Pass β} (hp : Steady p) (hf : ∀ b, Steady (f b)) :
    Steady (p >>= f) := by
  intro a _ a' h
  obtain ⟨b, a₁, hfirst, hrest⟩ := Pass.bind_eq_ok.mp h
  exact (hf b a₁ _ a' hrest).trans (hp a b a₁ hfirst)

theorem mapM {f : α → Pass β} (hf : ∀ item, Steady (f item)) (items : List α) :
    Steady (items.mapM f) := by
  induction items with
  | nil => exact pure []
  | cons item items ih =>
    rw [List.mapM_cons]
    exact (hf item).bind fun _ => ih.bind fun _ => pure _

/-- One part after another for each of some items. -/
theorem foldlM {f : β → α → Pass β} (hf : ∀ b item, Steady (f b item)) (items : List α) :
    ∀ b, Steady (items.foldlM f b) := by
  induction items with
  | nil => exact pure
  | cons item items ih =>
    intro b
    rw [List.foldlM_cons]
    exact (hf b item).bind ih

end Steady

/-- Writing an annotation changes only the record of kinds. -/
theorem Annotations.enabled_annotate (a : Annotations) (target : Members) (kind : String)
    (v : Value) : (a.annotate target kind v).2.enabled = a.enabled :=
  (grown_annotate a target kind v).enabled

theorem steady_annotate (target : Members) (kind : String) (v : Value) :
    Steady (annotate target kind v) := by
  intro a m a' h
  have hrun : a.annotate target kind v = (m, a') := Except.ok.inj h
  rw [← a.enabled_annotate target kind v, hrun]

/-- Writing several annotations, by induction over them. -/
theorem steady_annotateAll (target extensions : Members) :
    Steady (annotateAll target extensions) := by
  intro a m a' h
  have hrun : a.annotateAll target extensions = (m, a') := Except.ok.inj h
  have hkept : (a.annotateAll target extensions).2.enabled = a.enabled := by
    unfold Annotations.annotateAll
    -- Each extension is written with the switch that the one before it left.
    clear hrun h
    induction extensions generalizing a target with
    | nil => rfl
    | cons extension extensions ih =>
      rw [List.foldl_cons, ih, a.enabled_annotate]
  rw [← hkept, hrun]

/-- Writing an annotation where there is something to write. -/
theorem steady_annotateGiven (target : Members) (kind : String) (v : Value) :
    Steady (annotateGiven target kind v) := by
  unfold annotateGiven
  split
  · exact .pure _
  · exact steady_annotate target kind v

/-! ## Operations

Each part of a declaration is put together from steady ones. -/

/-- Parameters of the address are made one after another. -/
theorem steady_addressParameters (schema : Value) : Steady (addressParameters schema) := by
  have hmembers : ∀ property fields, Steady (annotateMembers property fields) := by
    intro property fields
    refine .foldlM (fun fields name => ?_) _ fields
    split
    · exact .pure _
    · exact steady_annotate _ _ _
  -- First the members of the schema, then the parameters that they give.
  rw [addressParameters_eq]
  refine (Steady.lift _).bind fun members => ?_
  unfold addressParametersOf
  dsimp only
  split
  · exact .pure _
  · refine (Steady.lift _).bind fun properties => (Steady.mapM (fun property => ?_) _).bind
      fun _ => .pure _
    exact (hmembers _ _).bind fun _ => .pure _

theorem steady_introduction (version : Version) (traits : List Trait) (e : Endpoint) :
    Steady (introduction version traits e) :=
  (steady_annotateAll _ _).bind fun _ => (steady_annotateGiven _ _ _).bind fun _ => .pure _

theorem steady_operationResponses (version : Version) (mediaType : Value) (e : Endpoint) :
    Steady (operationResponses version mediaType e) := by
  refine (Steady.lift _).bind fun responses => ?_
  split
  · exact .pure _
  · exact steady_annotateAll _ _

theorem steady_addExchange (version : Version) (mediaType : Value) (e : Endpoint) (m : Members) :
    Steady (addExchange version mediaType e m) := by
  intro a result a' h
  obtain ⟨_, _, _, _, a₁, _, _, a₂, _, _, _, _, _, hresponses, _, hquery, _, hpath, _⟩ :=
    addExchange_eq_ok h
  calc a'.enabled = a₂.enabled := steady_addressParameters _ _ _ _ hpath
    _ = a₁.enabled := steady_addressParameters _ _ _ _ hquery
    _ = a.enabled := steady_operationResponses version mediaType e _ _ _ hresponses

theorem steady_addClosing (e : Endpoint) (m : Members) : Steady (addClosing e m) := by
  refine (steady_annotateGiven _ _ _).bind fun _ => (steady_annotateGiven _ _ _).bind fun _ => ?_
  split
  · exact .pure _
  · exact steady_annotate _ _ _

theorem steady_methodOf (version : Version) (project : Project) (mediaType : Value)
    (e : Endpoint) : Steady (methodOf version project mediaType e) :=
  (steady_introduction version project.traits e).bind fun m =>
    (steady_addExchange version mediaType e m).bind fun _ => steady_addClosing e _

/-! ## The head

The head of a definition in the same way; only what is said of the API itself is a pass. -/

theorem steady_addApiInfo (env : Environment) (definition : Members) :
    Steady (addApiInfo env definition) := by
  have hinfo : Steady (info env) := by
    refine (steady_annotateAll _ _).bind fun m => ?_
    dsimp only
    split
    on_goal 1 => refine (Steady.pure _).bind fun m => ?_
    on_goal 2 => refine (steady_annotateAll _ _).bind fun _ => (Steady.pure _).bind fun m => ?_
    -- With or without a contact, the license comes behind it.
    all_goals
      split
      · exact .pure _
      · exact (steady_annotateAll _ _).bind fun _ => .pure _
  exact hinfo.bind fun _ => steady_annotateGiven _ _ _

theorem steady_addDocsPage (env : Environment) (definition : Members) :
    Steady (addDocsPage env definition) := by
  unfold addDocsPage
  split
  · exact .pure _
  · exact (steady_annotateAll _ _).bind fun _ => steady_annotate _ _ _

theorem steady_opening (version : Version) (project : Project) :
    Steady (opening version project) :=
  (Steady.lift _).bind fun _ => (steady_annotateGiven _ _ _).bind fun _ =>
    (steady_addApiInfo _ _).bind fun _ => (steady_addDocsPage _ _).bind fun _ =>
      (Steady.lift _).bind fun _ => (steady_annotateAll _ _).bind fun _ =>
        steady_annotateGiven _ _ _

/-! ## Without annotations

Where the switch is off, writing an annotation does nothing, so no part of a declaration has one. -/

/-- Members that are no annotations. -/
def Plain (m : Members) : Prop := ∀ name ∈ Entries.keys m, Unmarked name

namespace Plain

variable {m m' : Members}

theorem nil : Plain [] := nofun

/-- Putting a member that is no annotation. -/
theorem put (h : Plain m) {name : String} (hname : Unmarked name) (v : Value) :
    Plain (Entries.put m name v) := by
  intro other hother
  rcases Entries.mem_keys_put.mp hother with rfl | hbefore
  · exact hname
  · exact h other hbefore

theorem putGiven (h : Plain m) {name : String} (hname : Unmarked name) (v : Value) :
    Plain (m.putGiven name v) := by
  unfold Members.putGiven
  split
  · exact h
  · exact h.put hname v

/-- The shown name of an operation stands under one of a few fixed names. -/
theorem addDisplayName (h : Plain m) (version : Version) (name : Value) :
    Plain (version.addDisplayName m name) := by
  unfold Version.addDisplayName
  split
  · exact h
  · split
    · exact h.put (unmarked_of_head (by simp)) name
    · split
      · exact h
      · exact h.put (unmarked_of_head (by simp)) name

variable {a a' : Annotations}

/-- An annotation that is switched off is not written. -/
theorem annotate (h : Plain m) (hoff : a.enabled = false) {kind : String} {v : Value}
    (hrun : Raml.annotate m kind v a = .ok (m', a')) : Plain m' := by
  have heq : a.annotate m kind v = (m', a') := Except.ok.inj hrun
  rw [Annotations.annotate, if_neg (by rw [hoff]; decide)] at heq
  exact (Prod.mk.inj heq).1 ▸ h

theorem annotateGiven (h : Plain m) (hoff : a.enabled = false) {kind : String} {v : Value}
    (hrun : Raml.annotateGiven m kind v a = .ok (m', a')) : Plain m' := by
  unfold Raml.annotateGiven at hrun
  split at hrun
  · cases hrun
    exact h
  · exact h.annotate hoff hrun

theorem annotateAll (h : Plain m) (hoff : a.enabled = false) {extensions : Members}
    (hrun : Raml.annotateAll m extensions a = .ok (m', a')) : Plain m' := by
  have heq : a.annotateAll m extensions = (m', a') := Except.ok.inj hrun
  have hsame : a.annotateAll m extensions = (m, a) := by
    unfold Annotations.annotateAll
    clear hrun heq
    induction extensions with
    | nil => rfl
    | cons extension extensions ih =>
      rw [List.foldl_cons, Annotations.annotate, if_neg (by rw [hoff]; decide), ih]
  rw [hsame] at heq
  exact (Prod.mk.inj heq).1 ▸ h

end Plain

section

variable {version : Version} {e : Endpoint} {a a' : Annotations} {m : Members}

theorem plain_introduction {traits : List Trait} (hoff : a.enabled = false)
    (h : introduction version traits e a = .ok (m, a')) : Plain m := by
  unfold introduction at h
  obtain ⟨extended, a₁, hextended, h⟩ := Pass.bind_eq_ok.mp h
  obtain ⟨summed, a₂, hsummed, h⟩ := Pass.bind_eq_ok.mp h
  cases h
  have hoff₁ : a₁.enabled = false := (steady_annotateAll _ _ _ _ _ hextended).trans hoff
  have hextends : Plain extended := Plain.nil.annotateAll hoff hextended
  have hsums : Plain summed := by
    refine Plain.annotateGiven (Plain.putGiven ?_ (unmarked_of_head (by simp)) _) hoff₁ hsummed
    exact hextends.addDisplayName version _
  exact (hsums.putGiven (unmarked_of_head (by simp)) _).putGiven (unmarked_of_head (by simp)) _

/-- What an operation exchanges has fixed names. -/
theorem Plain.addExchange (h : Plain m) {mediaType : Value} {result : Members}
    (hrun : addExchange version mediaType e m a = .ok (result, a')) : Plain result := by
  obtain ⟨_, _, _, _, _, _, _, _, _, _, _, _, _, _, _, _, _, _, rfl⟩ := addExchange_eq_ok hrun
  iterate 5 refine Plain.putGiven ?_ (unmarked_of_head (by simp)) _
  exact h

/-- What closes an operation, all of which would be annotations. -/
theorem Plain.addClosing (h : Plain m) (hoff : a.enabled = false) {result : Members}
    (hrun : addClosing e m a = .ok (result, a')) : Plain result := by
  unfold Raml.addClosing at hrun
  obtain ⟨tagged, a₁, htagged, hrun⟩ := Pass.bind_eq_ok.mp hrun
  obtain ⟨marked, a₂, hmarked, hrun⟩ := Pass.bind_eq_ok.mp hrun
  have hoff₁ : a₁.enabled = false := (steady_annotateGiven _ _ _ _ _ _ htagged).trans hoff
  have hoff₂ : a₂.enabled = false := (steady_annotateGiven _ _ _ _ _ _ hmarked).trans hoff₁
  have hmarks : Plain marked := (h.annotateGiven hoff htagged).annotateGiven hoff₁ hmarked
  cases hdocs : e.externalDocs with
  | none =>
    rw [hdocs] at hrun
    cases hrun
    exact hmarks
  | some docs =>
    rw [hdocs] at hrun
    exact hmarks.annotate hoff₂ hrun

/-- **The members of a declaration without annotations.** -/
theorem mem_declaredNames_of_methodOf {project : Project} {mediaType : Value}
    (hoff : a.enabled = false) (h : methodOf version project mediaType e a = .ok (m, a')) :
    ∀ name ∈ Entries.keys m, name ∈ declaredNames := by
  have hparts := methodParts h
  have hplain : Plain m := by
    unfold methodOf at h
    obtain ⟨introduced, a₁, hintroduced, h⟩ := Pass.bind_eq_ok.mp h
    obtain ⟨exchanged, a₂, hexchanged, h⟩ := Pass.bind_eq_ok.mp h
    have hoff₁ : a₁.enabled = false :=
      (steady_introduction _ _ _ _ _ _ hintroduced).trans hoff
    have hoff₂ : a₂.enabled = false :=
      (steady_addExchange _ _ _ _ _ _ _ hexchanged).trans hoff₁
    have hexchanges := (plain_introduction hoff hintroduced).addExchange hexchanged
    exact (hexchanges.putGiven (unmarked_of_head (by simp)) _).addClosing hoff₂ h
  intro name hname
  by_contra hother
  -- What is neither an annotation nor one of the names was not written.
  have hnone := hparts.toFrames.get? name hother (hplain name hname)
  exact Entries.get?_eq_none_iff.mp hnone hname

end

end Ramlify.Raml
