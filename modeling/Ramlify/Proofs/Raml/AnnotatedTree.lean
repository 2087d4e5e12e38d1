import Ramlify.Proofs.Raml.AnnotationNames

/-!
# Ramlify — inserting brings in no new annotations

A tree of resources has the names of its methods, of the resources and of the parameters that were
moved. So if all of these are of some kind, all names of the tree are
(**`allNames_insertMethod`**). At its top a tree gains little (**`insertMethod_top`**): a definition
keeps the names that it needs for itself.
-/

namespace Ramlify.Raml

/-- Parameters are moved one by one, with the names they have. By induction over the parameters,
also where moving stops at a failure. -/
theorem allNames_hoist {ok : String → Prop} {displayName : Value} {parameters : Members} :
    ∀ {moved result : Value} {failure : Option Failure},
      hoist displayName moved parameters = (result, failure) →
      moved.AllNames ok → parameters.AllNames ok → result.AllNames ok := by
  -- Over the parameters; moving one more puts its name and its own names into the result.
  induction parameters with
  | nil =>
    intro moved result failure h hmoved _
    cases h
    exact hmoved
  | cons parameter rest ih =>
    obtain ⟨name, v⟩ := parameter
    intro moved result failure h hmoved hparameters
    obtain ⟨⟨hname, hv⟩, hrest⟩ := Members.allNames_cons_iff.mp hparameters
    rw [hoist] at h
    split at h
    · exact ih h hmoved hrest
    · split at h
      · cases h
        exact hmoved
      · exact ih h hmoved hrest
      · split at h
        · cases h
          exact hmoved
        · next hput => exact ih h (allNames_put hput hmoved hname hv) hrest

/-- Storing a method at its resource brings in the names of the method and of its parameters. -/
theorem allNames_insertHere {kinds : List String} {key : String} {method tree : Value}
    {resource : Members} (h : insertHere key method resource = (tree, none))
    (hkey : Declared kinds key) (hmethod : method.AllNames (Declared kinds))
    (hresource : resource.AllNames (Declared kinds)) : tree.AllNames (Declared kinds) := by
  obtain ⟨members, parameters, moved, rfl, hparameters, hhoist, rfl⟩ := insertHere_eq_none h
  have hname : Declared kinds "uriParameters" := (unmarked_of_head (by simp)).declared kinds
  have hmembers := Value.allNames_obj_iff.mp hmethod
  -- The resource is given a place for the parameters, then these are moved into it, and the place
  -- is taken away if there is nothing in it.
  have hopened : (openedFor resource).AllNames (Declared kinds) := by
    unfold openedFor
    split
    · exact hresource
    · exact hresource.put hname (Value.allNames_obj_iff.mpr Members.allNames_nil)
  have hgiven : parameters.AllNames (Declared kinds) := by
    unfold parameterMembers at hparameters
    split at hparameters
    · cases hparameters
      exact Members.allNames_nil
    · have hfind := hmembers.find "uriParameters"
      rwa [Value.members_eq_ok hparameters, Value.allNames_obj_iff] at hfind
  have hmoved := allNames_hoist hhoist (hopened.find _) hgiven
  have hkept : (withParameters resource moved).AllNames (Declared kinds) := by
    unfold withParameters
    split
    · exact (hopened.put hname hmoved).erase _
    · exact hopened.put hname hmoved
  exact Value.allNames_obj_iff.mpr
    (hkept.put hkey (Value.allNames_obj_iff.mpr (hmembers.erase _)))

/-- Inserting brings in the names of the method, its key and those of resources. -/
theorem allNames_insertMethod {kinds : List String} {key : String} {method : Value}
    (hkey : Declared kinds key) (hmethod : method.AllNames (Declared kinds))
    (segments : List String) : ∀ {tree result : Value},
      insertMethod key method segments tree = (result, none) →
      tree.AllNames (Declared kinds) → result.AllNames (Declared kinds) := by
  -- Over the segments; the child is the resource that was there, or a new one with its label.
  induction segments with
  | nil =>
    intro tree result h htree
    cases tree with
    | obj resource =>
      exact allNames_insertHere h hkey hmethod (Value.allNames_obj_iff.mp htree)
    | null | bool | int | float | str | list => cases h
  | cons segment segments ih =>
    intro tree result h htree
    cases tree with
    | obj resource =>
      have hresource := Value.allNames_obj_iff.mp htree
      have hchild : ((Entries.get? resource (resourceKey segment)).getD
          (newResource segment)).AllNames (Declared kinds) := by
        cases hget : Entries.get? resource (resourceKey segment) with
        | some child => exact hresource.get? hget
        | none =>
          rw [Option.getD_none, newResource, Value.allNames_obj_iff]
          split
          · exact Members.allNames_nil
          · exact Members.allNames_cons_iff.mpr
              ⟨⟨(unmarked_of_head (by simp)).declared kinds, Value.allNames_str _⟩,
                Members.allNames_nil⟩
      rw [insertMethod] at h
      obtain ⟨hresult, hnone⟩ := Prod.mk.inj h
      rw [← hresult, Value.allNames_obj_iff]
      exact hresource.put ((unmarked_resourceKey segment).declared kinds)
        (ih (Prod.ext rfl hnone) hchild)
    | null | bool | int | float | str | list => cases h

/-- At its top a tree gains at most the key, the parameters and a resource. -/
theorem insertMethod_top {key : String} {method result : Value} {segments : List String}
    {tree : Members} (h : insertMethod key method segments (.obj tree) = (result, none)) :
    ∃ after : Members, result = .obj after
      ∧ ((Entries.keys tree).Nodup → (Entries.keys after).Nodup)
      ∧ ∀ name ∈ Entries.keys after, name ∈ Entries.keys tree ∨ name = key
          ∨ name = "uriParameters" ∨ ∃ segment, name = resourceKey segment := by
  -- Only with no segments to go is anything but a resource put at the top.
  cases segments with
  | cons segment segments =>
    rw [insertMethod] at h
    obtain ⟨hresult, _⟩ := Prod.mk.inj h
    refine ⟨_, hresult.symm, fun hn => Entries.nodup_keys_put hn _ _, fun name hname => ?_⟩
    rcases Entries.mem_keys_put.mp hname with rfl | hbefore
    · exact Or.inr (Or.inr (Or.inr ⟨segment, rfl⟩))
    · exact Or.inl hbefore
  | nil =>
    obtain ⟨members, parameters, moved, rfl, -, -, rfl⟩ := insertHere_eq_none h
    refine ⟨_, rfl, fun hn => Entries.nodup_keys_put (nodup_withParameters hn moved) _ _,
      fun name hname => ?_⟩
    rcases Entries.mem_keys_put.mp hname with rfl | hkept
    · exact Or.inr (Or.inl rfl)
    · rcases mem_keys_withParameters hkept with hbefore | hparameters
      · exact Or.inl hbefore
      · exact Or.inr (Or.inr (Or.inl hparameters))

end Ramlify.Raml
