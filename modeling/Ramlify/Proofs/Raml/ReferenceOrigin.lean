import Ramlify.Proofs.Raml.TreeReadings

/-!
# Ramlify — where references in a tree come from

A declaration has its references under one name, and no other part of a declaration has a list
there. So whatever has references in a tree of resources has them from the operation that was
inserted there, also if a method is called like a resource.

* **`references`** — looking for references as a reading.
* **`references_unread`** — no part of a declaration has references of its own.
-/

namespace Ramlify.Raml

/-- The references of a declaration, if it has any. -/
def referencesOf? : Value → Option (List Value)
  | .obj members =>
    match Entries.get? members "securedBy" with
    | some (.list references) => some references
    | _ => none
  | _ => none

/-- References are found by one member alone. -/
theorem referencesOf?_congr {m m' : Members}
    (h : Entries.get? m' "securedBy" = Entries.get? m "securedBy") :
    referencesOf? (.obj m') = referencesOf? (.obj m) := by
  unfold referencesOf?
  dsimp only
  rw [h]

/-- An object that is put somewhere is no list of references. -/
theorem referencesOf?_of_put {m fields : Members} {name : String} {found : List Value}
    (h : referencesOf? (.obj (Entries.put m name (.obj fields))) = some found) :
    referencesOf? (.obj m) = some found := by
  by_cases hname : name = "securedBy"
  · subst hname
    have hput := Entries.get?_put_self m "securedBy" (.obj fields)
    unfold referencesOf? at h
    dsimp only at h
    rw [hput] at h
    cases h
  · rwa [referencesOf?_congr (Entries.get?_put_of_ne m _ hname)] at h

/-- Looking for references, which annotations do not have. -/
def references : Reading (List Value) where
  Finds v found := referencesOf? v = some found
  names := ["securedBy"]
  Counts := Unmarked
  Inert _ := True
  own := by simp
  counts_parameters := unmarked_of_head (by simp)
  counts_resource := unmarked_resourceKey
  objects := by
    intro v found h
    cases v with
    | obj members => exact ⟨members, rfl⟩
    | null | bool | int | float | str | list => cases h
  nothing := nofun
  congr := by
    intro m m' found hsame h
    rwa [referencesOf?_congr (hsame _ List.mem_cons_self)] at h
  put := fun _ => referencesOf?_of_put

/-- **No part of a declaration has references of its own.** -/
theorem references_unread {version : Version} {project : Project} {mediaType : Value}
    {e : Endpoint} {m : Members} (h : MethodParts version project mediaType e m) :
    references.Unread m := by
  refine Reading.unread_of_methodParts h ?_ (fun _ _ _ => trivial)
    (fun name hplain hname => h.toFrames.get? name hname hplain) trivial
  intro name hname
  rw [List.mem_singleton.mp hname]
  exact ⟨by decide, by decide +kernel, unmarked_of_head (by simp)⟩

end Ramlify.Raml
