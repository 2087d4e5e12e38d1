import Ramlify.Proofs.Raml.DisplayOrder
import Ramlify.Proofs.Raml.ImportedMethod
import Ramlify.Raml.Definition

/-!
# Ramlify — the definition of an imported project

An imported project has a name, a description and operations. So its definition is a head and the
tree of its operations; nothing is declared and no annotations are written.

* **`definition_imported`** — the definition is built exactly if all operations find their place in
  the tree.
-/

namespace Ramlify.Raml

open Postman (Operation imported)

/-! ## The head

An imported project says nothing of its API but a name and a description, so its head is short. -/

/-- The head of the definition of an imported project. -/
def importedHead (version : Version) (name description : String) : Members :=
  [("title", .str name), ("version", .null), ("mediaType", .str "")] ++
    if description.isEmpty then []
    else
      match version with
      | .v10 => [("description", .str description)]
      | .v08 => [("documentation", .list
          [.obj [("title", .str "Description"), ("content", .str description)]])]

section

variable (version : Version) (name description : String) (operations : List Operation)
  (saved : List SavedEntry) (groups : List Members)

/-- The head is made without failing, and it writes no annotations. -/
theorem opening_imported (a : Annotations) :
    opening version (imported name description operations saved groups) a
      = .ok (importedHead version name description, a) := by
  -- An imported project has nothing else to be said of it than its name and its description.
  have hdescribed : version.addDescription
      (header version (imported name description operations saved groups)) description
        = .ok (importedHead version name description) := by
    have hheader : header version (imported name description operations saved groups)
        = [("title", .str name), ("version", .null), ("mediaType", .str "")] := by
      cases version <;> rfl
    rw [hheader]
    unfold Version.addDescription importedHead
    split
    · rfl
    · cases version <;> rfl
  unfold opening
  refine Pass.bind_eq_ok.mpr ⟨_, a, Pass.lift_eq_ok.mpr ⟨hdescribed, rfl⟩, ?_⟩
  rfl

end

/-! ## The tree

The declarations are known, so inserting the operations is inserting these. -/

/-- Where the declaration of an imported operation is to stand. -/
def insertionOf (version : Version) (o : Operation) : Insertion where
  segments := segmentsOf o.path
  key := o.method
  method := importedMethod version o

/-- The operations are added to a tree as their declarations are inserted into it. -/
theorem addOperations_imported {version : Version} {project : Project} {mediaType : Value}
    {operations : List Operation} (htidy : ∀ o ∈ operations, o.Tidy) {tree result : Value}
    (h : insertAll tree (operations.map (insertionOf version)) = .ok result) (a : Annotations) :
    (operations.map Operation.endpoint).foldlM (addOperation version project mediaType) tree a
      = .ok (result, a) := by
  -- Over the operations, from any tree; the record never changes.
  induction operations generalizing tree with
  | nil =>
    cases h
    rfl
  | cons o operations ih =>
    obtain ⟨after, hplaced, hrest⟩ := Outcome.bind_eq_ok.mp h
    have hadded : addOperation version project mediaType tree o.endpoint a = .ok (after, a) := by
      refine Pass.bind_eq_ok.mpr
        ⟨_, a, methodOf_imported version project mediaType (htidy o List.mem_cons_self) a, ?_⟩
      exact Pass.lift_eq_ok.mpr ⟨hplaced, rfl⟩
    rw [List.map_cons, List.foldlM_cons]
    refine Pass.bind_eq_ok.mpr ⟨after, a, hadded, ?_⟩
    exact ih (fun other hother => htidy other (List.mem_cons_of_mem _ hother)) hrest

/-! ## The definition

Head and tree together; there are neither schemas nor traits to be declared. -/

/-- The definition with a tree of resources. -/
def importedDefinition (version : Version) (name description : String) (tree : Members) : Members :=
  (Entries.putAll (importedHead version name description) tree).filter fun member =>
    !member.2.isVacant

/-- **The definition of an imported project**, if all operations find their place in the tree. -/
theorem definition_imported {version : Version} {name description : String}
    {operations : List Operation} {saved : List SavedEntry} {groups : List Members}
    (htidy : ∀ o ∈ operations, o.Tidy) {tree : Members}
    (h : insertAll (.obj []) (operations.map (insertionOf version)) = .ok (.obj tree)) :
    definition version (imported name description operations saved groups)
      = .ok (importedDefinition version name description tree) := by
  have hresources : ∀ mediaType a, resources version
      (imported name description operations saved groups) mediaType a = .ok (tree, a) := by
    intro mediaType a
    refine Pass.bind_eq_ok.mpr ⟨_, a, Pass.lift_eq_ok.mpr ⟨inDisplayOrder_nil _, rfl⟩, ?_⟩
    refine Pass.bind_eq_ok.mpr ⟨_, a, addOperations_imported htidy h a, ?_⟩
    exact Pass.lift_eq_ok.mpr ⟨rfl, rfl⟩
  -- Neither types nor traits nor extensions are added, which is seen by computation.
  have hcontent : ∀ a, content version (imported name description operations saved groups) a
      = .ok (importedDefinition version name description tree, a) := by
    intro a
    refine Pass.bind_eq_ok.mpr ⟨_, a, opening_imported version name description operations saved
      groups a, ?_⟩
    refine Pass.bind_eq_ok.mpr ⟨_, a, hresources _ a, ?_⟩
    rfl
  unfold definition
  refine Outcome.bind_eq_ok.mpr ⟨_, hcontent _, ?_⟩
  rfl

end Ramlify.Raml
