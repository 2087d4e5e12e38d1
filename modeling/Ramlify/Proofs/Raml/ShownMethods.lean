import Ramlify.Proofs.Lowercase
import Ramlify.Proofs.LoweredMethods
import Ramlify.Proofs.Raml.ReferenceOrigin

/-!
# Ramlify — what stands at the places of a definition

Operations of one method whose paths agree behind the first slash come to one place, where the one
that is shown last stands. If no method begins with a slash, the insertions of a definition are
admissible, so its tree is a store (`TreeFor`), and what is read from it can be said in terms of the
operations.

* **`treeFor_definition`** — the tree of a definition is the store of its insertions.
* **`entryAt_shown`** — at each place there is the declaration of the operation that is shown there.
-/

namespace Ramlify.Raml

/-! ## The operation that is shown

Of several operations with one place the one that is shown last stands there, since it is inserted
last. -/

/-- The operation that is shown under a method at the resource of a path: of those with this place
the last one, in the order in which operations are shown. -/
def shownAt (ordered : List Endpoint) (path : List String) (method : String) : Option Endpoint :=
  ordered.reverse.find? fun e => segmentsOf e.request.path == path && e.request.method == method

/-- The operation that is shown at a place is one with that place. -/
theorem mem_of_shownAt {ordered : List Endpoint} {path : List String} {method : String}
    {e : Endpoint} (h : shownAt ordered path method = some e) :
    e ∈ ordered ∧ segmentsOf e.request.path = path ∧ e.request.method = method := by
  have hplace := List.find?_some h
  rw [Bool.and_eq_true, beq_iff_eq, beq_iff_eq] at hplace
  exact ⟨List.mem_reverse.mp (List.mem_of_find?_eq_some h), hplace⟩

/-- At the place of an operation one is shown, though it may be another one. -/
theorem exists_shownAt {ordered : List Endpoint} {e : Endpoint} (he : e ∈ ordered) :
    ∃ owner, shownAt ordered (segmentsOf e.request.path) e.request.method = some owner := by
  refine Option.isSome_iff_exists.mp (List.find?_isSome.mpr ⟨e, List.mem_reverse.mpr he, ?_⟩)
  rw [beq_self_eq_true, beq_self_eq_true, Bool.and_self]

/-- In related lists the first items with a property are related, if related items agree on it. -/
theorem rel_find? {α β : Type} {R : α → β → Prop} {p : α → Bool} {q : β → Bool}
    (hagree : ∀ a b, R a b → p a = q b) {items : List α} {others : List β}
    (h : List.Forall₂ R items others) : Option.Rel R (items.find? p) (others.find? q) := by
  induction h with
  | nil => exact .none
  | @cons a b items others hfirst _ ih =>
    rw [List.find?_cons, List.find?_cons, hagree a b hfirst]
    cases q b with
    | true => exact .some hfirst
    | false => exact ih

/-! ## The tree as a store

The insertions of a definition are admissible if no method begins with a slash: methods are in lower
case, and the two names that resources have for themselves are not. -/

/-- The path parameters of an operation are an object of objects, if there are any. -/
theorem MethodParts.path_objects {version : Version} {project : Project} {mediaType : Value}
    {e : Endpoint} {m : Members} (h : MethodParts version project mediaType e m) {v : Value}
    (hv : Entries.get? m "uriParameters" = some v) :
    ∃ parameters : Members, v = .obj parameters := by
  obtain ⟨_, _, _, _, _, hpath, hpart⟩ := h.path
  rw [hpart] at hv
  obtain ⟨parameters, hobj⟩ := (acceptedOnly_addressParameters hpath).eq_obj hv
  exact ⟨_, hobj⟩

/-- The declaration of an operation is admissible, if its method is in lower case and does not begin
with a slash. -/
theorem Inserts.admissible {version : Version} {project : Project} {mediaType : Value}
    {e : Endpoint} {i : Insertion} (h : Inserts version project mediaType e i)
    (hlowered : e.request.Lowered) (hslash : e.request.method.startsWith "/" = false) :
    i.Admissible where
  key := by
    obtain ⟨s, hs⟩ := hlowered
    rw [h.key]
    refine ⟨hslash, ?_, ?_⟩
    · exact hs ▸ Unicode.lower_ne ⟨'N', by decide, by decide⟩ s
    · exact hs ▸ Unicode.lower_ne ⟨'P', by decide, by decide⟩ s
  parameters := by
    obtain ⟨_, _, hdeclared⟩ := h.declared
    -- The parameters of a declaration are missing or an object.
    cases hget : Entries.get? i.method "uriParameters" with
    | none =>
      left
      rw [Members.find, hget, Option.getD_none]
    | some v =>
      right
      obtain ⟨parameters, rfl⟩ := (methodParts hdeclared).path_objects hget
      have hfind : Members.find i.method "uriParameters" = .obj parameters := by
        rw [Members.find, hget, Option.getD_some]
      rw [Insertion.parameters, hfind]

section

variable {version : Version} {project : Project} {data : Members} {mediaType : Value}
  {ordered : List Endpoint} {insertions : List Insertion} {head tree : Members}
  (h : DefinitionParts version project data mediaType ordered insertions head tree)
  (hmethods : project.MethodsLowered)
  (hslashes : ∀ e ∈ project.endpoints, e.request.method.startsWith "/" = false)

include h hmethods hslashes

/-- **The tree of a definition is the store of its insertions.** -/
theorem treeFor_definition : TreeFor insertions [] (.obj tree) := by
  have hadmissible : ∀ i ∈ insertions, i.Admissible := by
    intro i hi
    obtain ⟨e, he, hinserts⟩ := h.exists_endpoint hi
    exact hinserts.admissible (hmethods e he) (hslashes e he)
  obtain ⟨after, hrun, hafter⟩ := insertAll_treeFor treeFor_nil insertions hadmissible
  cases hrun.symm.trans h.built
  exact hafter

/-- **At each place there is the declaration of the operation that is shown there**, without the
parameters of its path, and nothing where no operation is shown. -/
theorem entryAt_shown {path : List String} (hpath : path ≠ []) {key : String}
    (hkey : IsMethodKey key) :
    Option.Rel (fun e v => ∃ declared, MethodParts version project mediaType e declared
        ∧ v = .obj (Entries.erase declared "uriParameters"))
      (shownAt ordered path key) (entryAt path key (.obj data)) := by
  have htree := treeFor_definition h hmethods hslashes
  rw [h.toMadeOf.entryAt_eq h.toFrames hpath, htree.entryAt_eq path hkey]
  -- An operation and its insertion have the same place and the same key, so the last of the ones
  -- and the last of the others are found together.
  have hagree : ∀ e i, Inserts version project mediaType e i →
      (segmentsOf e.request.path == path && e.request.method == key)
        = (i.segments == path && i.key == key) := by
    intro e i hinserts
    rw [hinserts.segments, hinserts.key]
  have hrelated := rel_find? hagree (List.rel_reverse h.inserts)
  unfold shownAt lastMethod
  revert hrelated
  generalize ordered.reverse.find? _ = shown
  generalize insertions.reverse.find? _ = last
  rintro (hinserts | -)
  · obtain ⟨_, _, hdeclared⟩ := hinserts.declared
    exact .some ⟨_, methodParts hdeclared, rfl⟩
  · exact .none

/-- No operation stands under a name of something else. -/
theorem isMethodKey_method {e : Endpoint} (he : e ∈ project.endpoints) :
    IsMethodKey e.request.method := by
  obtain ⟨i, _, hinserts⟩ := h.exists_insertion he
  rw [← hinserts.key]
  exact (hinserts.admissible (hmethods e he) (hslashes e he)).key

/-- Methods stand at the places of operations only. -/
theorem exists_of_entryAt {path : List String} (hpath : path ≠ []) {key : String}
    (hkey : IsMethodKey key) {v : Value} (hv : entryAt path key (.obj data) = some v) :
    ∃ e ∈ project.endpoints, segmentsOf e.request.path = path ∧ e.request.method = key := by
  have hentry := entryAt_shown h hmethods hslashes hpath hkey
  rw [hv] at hentry
  generalize hshown : shownAt ordered path key = shown at hentry
  cases hentry with
  | some _ =>
    obtain ⟨hmem, hplace⟩ := mem_of_shownAt hshown
    exact ⟨_, (mem_inDisplayOrder h.shown).mp hmem, hplace⟩

end

end Ramlify.Raml
