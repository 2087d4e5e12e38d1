import Ramlify.Proofs.Entries
import Ramlify.Raml.Resource

/-!
# Ramlify — putting a method into its resource

The last step of an insertion: the resource gets a member for its parameters, the parameters of the
method that belong to it are moved there, the member is taken away if nothing is in it, and the
method is put under its key.

* **`insertHere_eq`** / **`insertHere_eq_none`** — what the step leaves, and all that it can leave
  where it does not fail.
* **`get?_withParameters_of_ne`** — the step changes nothing of a resource but its parameters.
-/

namespace Ramlify.Raml

/-- Members as a part of a resource: none at all if there is nothing in them. -/
def partOf (members : Members) : Option Value :=
  if members.isEmpty then none else some (.obj members)

/-- What a resource is opened with: its own parameters, or none yet. -/
def openedFor (resource : Members) : Members :=
  if Entries.has resource "uriParameters" then resource
  else Entries.put resource "uriParameters" (.obj [])

/-- A resource with some parameters, which it keeps only if there are any. -/
def withParameters (resource : Members) (moved : Value) : Members :=
  let changed := Entries.put (openedFor resource) "uriParameters" moved
  if moved.isVacant then Entries.erase changed "uriParameters" else changed

/-! ## The step

A method either finds its parameters in order and is stored, or the step fails; only the first case
leaves something to be told. -/

/-- What the step leaves where the parameters can be moved. -/
theorem insertHere_eq {key : String} {members resource parameters : Members} {moved : Value}
    (hparameters : parameterMembers (Members.find members "uriParameters") = .ok parameters)
    (hhoist : hoist (Members.find resource "displayName")
      (Members.find (openedFor resource) "uriParameters") parameters = (moved, none)) :
    insertHere key (.obj members) resource
      = (.obj (Entries.put (withParameters resource moved) key
          (.obj (Entries.erase members "uriParameters"))), none) := by
  unfold openedFor at hhoist
  simp only [insertHere, takeParameters, hparameters, hhoist]
  rfl

/-- **All that putting a method into its resource can do**, where it does not fail. -/
theorem insertHere_eq_none {key : String} {method tree : Value} {resource : Members}
    (h : insertHere key method resource = (tree, none)) :
    ∃ members parameters moved, method = .obj members
      ∧ parameterMembers (Members.find members "uriParameters") = .ok parameters
      ∧ hoist (Members.find resource "displayName")
          (Members.find (openedFor resource) "uriParameters") parameters = (moved, none)
      ∧ tree = .obj (Entries.put (withParameters resource moved) key
          (.obj (Entries.erase members "uriParameters"))) := by
  cases method with
  | obj members =>
    dsimp only [insertHere, takeParameters] at h
    -- Only where nothing fails on the way is there no failure at the end.
    split at h
    · cases h
    · next parameters hparameters =>
      split at h
      · cases h
      · next hnone =>
        cases h
        exact ⟨members, parameters, _, rfl, hparameters, Prod.ext rfl hnone, rfl⟩
  | null | bool | int | float | str | list => cases h

/-! ## The resource afterwards

Besides the method itself only the parameters of the resource may have changed. -/

/-- Opening a resource gives it a place for its parameters, and nothing else. -/
theorem get?_openedFor_of_ne (resource : Members) {name : String} (h : name ≠ "uriParameters") :
    Entries.get? (openedFor resource) name = Entries.get? resource name := by
  unfold openedFor
  split
  · rfl
  · exact Entries.get?_put_of_ne _ _ h.symm

/-- A resource is opened with the parameters that it has. -/
theorem find_openedFor {resource old : Members}
    (h : Entries.get? resource "uriParameters" = partOf old) :
    Members.find (openedFor resource) "uriParameters" = .obj old := by
  unfold openedFor Members.find
  cases old with
  | nil =>
    have hnone : Entries.get? resource "uriParameters" = none := h
    rw [if_neg (by rw [Entries.has, hnone]; simp), Entries.get?_put_self]
    rfl
  | cons first rest =>
    have hsome : Entries.get? resource "uriParameters" = some (.obj (first :: rest)) := h
    rw [if_pos (by rw [Entries.has, hsome]; rfl), hsome]
    rfl

/-- Opening a resource keeps its names distinct. -/
theorem nodup_openedFor {resource : Members} (h : (Entries.keys resource).Nodup) :
    (Entries.keys (openedFor resource)).Nodup := by
  unfold openedFor
  split
  · exact h
  · exact Entries.nodup_keys_put h _ _

theorem nodup_withParameters {resource : Members} (h : (Entries.keys resource).Nodup)
    (moved : Value) : (Entries.keys (withParameters resource moved)).Nodup := by
  have hchanged := Entries.nodup_keys_put (nodup_openedFor h) "uriParameters" moved
  unfold withParameters
  split
  · exact Entries.nodup_keys_erase hchanged _
  · exact hchanged

/-- All but the parameters of a resource stays. -/
theorem get?_withParameters_of_ne (resource : Members) (moved : Value) {name : String}
    (h : name ≠ "uriParameters") :
    Entries.get? (withParameters resource moved) name = Entries.get? resource name := by
  have hchanged : Entries.get? (Entries.put (openedFor resource) "uriParameters" moved) name
      = Entries.get? resource name := by
    rw [Entries.get?_put_of_ne _ _ h.symm, get?_openedFor_of_ne resource h]
  unfold withParameters
  split
  · rw [Entries.get?_erase_of_ne _ h.symm, hchanged]
  · exact hchanged

/-- The parameters of a resource are those that were moved there, if there are any. -/
theorem get?_withParameters_self {resource : Members} (h : (Entries.keys resource).Nodup)
    (moved : Members) :
    Entries.get? (withParameters resource (.obj moved)) "uriParameters" = partOf moved := by
  have hchanged := Entries.nodup_keys_put (nodup_openedFor h) "uriParameters" (.obj moved)
  unfold withParameters
  cases moved with
  | nil => exact Entries.get?_erase_self hchanged _
  | cons first rest => exact Entries.get?_put_self _ _ _

/-- No name is new but that of the parameters. -/
theorem mem_keys_withParameters {resource : Members} {moved : Value} {name : String}
    (h : name ∈ Entries.keys (withParameters resource moved)) :
    name ∈ Entries.keys resource ∨ name = "uriParameters" := by
  -- Opening the resource may bring the one name in, and putting the parameters there brings no
  -- other.
  have hopened : ∀ other ∈ Entries.keys (openedFor resource),
      other ∈ Entries.keys resource ∨ other = "uriParameters" := by
    intro other hother
    unfold openedFor at hother
    split at hother
    · exact Or.inl hother
    · exact (Entries.mem_keys_put.mp hother).symm
  have hchanged : name ∈ Entries.keys (Entries.put (openedFor resource) "uriParameters" moved) := by
    unfold withParameters at h
    split at h
    · exact ((Entries.erase_sublist _ _).map _).subset h
    · exact h
  rcases Entries.mem_keys_put.mp hchanged with rfl | hbefore
  · exact Or.inr rfl
  · exact hopened name hbefore

end Ramlify.Raml
