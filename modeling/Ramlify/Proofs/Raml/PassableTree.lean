import Ramlify.Proofs.Outcome
import Ramlify.Proofs.Raml.ResourceTree

/-!
# Ramlify — trees that take any method

A method may be called anything, so it may stand where a resource is looked for, and a path may lead
into it. That does no harm as long as a method looks like a resource where resources are looked
into. `Passable` says so of a whole tree.

* **`insertMethod_passable`** — a method finds its place in a passable tree, and the tree stays
  passable; `insertAll_passable` is the whole run.
-/

namespace Ramlify.Raml

/-- A tree into which methods can be put at any path: a name is a text, parameters are an object,
and what stands where a resource would is passable itself. -/
inductive Passable : Value → Prop where
  | obj {members : Members}
      (label : ∀ v, ("displayName", v) ∈ members → ∃ s, v = .str s)
      (parameters : ∀ v, ("uriParameters", v) ∈ members → ∃ inner, v = .obj inner)
      (resources : ∀ segment v, (resourceKey segment, v) ∈ members → Passable v) :
      Passable (.obj members)

namespace Passable

theorem empty : Passable (.obj []) :=
  .obj (fun _ h => nomatch h) (fun _ h => nomatch h) (fun _ _ h => nomatch h)

theorem sublist {members fewer : Members} (h : Passable (.obj members))
    (hfewer : fewer.Sublist members) : Passable (.obj fewer) := by
  cases h with
  | obj label parameters resources =>
    exact .obj (fun v hv => label v (hfewer.subset hv))
      (fun v hv => parameters v (hfewer.subset hv))
      (fun segment v hv => resources segment v (hfewer.subset hv))

/-- Putting a member that looks as it should under its name. -/
theorem put {members : Members} (h : Passable (.obj members)) {name : String} {value : Value}
    (hlabel : name = "displayName" → ∃ s, value = .str s)
    (hparameters : name = "uriParameters" → ∃ inner, value = .obj inner)
    (hresource : ∀ segment, name = resourceKey segment → Passable value) :
    Passable (.obj (Entries.put members name value)) := by
  cases h with
  | obj label parameters resources =>
    refine .obj (fun v hv => ?_) (fun v hv => ?_) (fun segment v hv => ?_)
    · -- Each of the three conditions is that of the new member, or of one that was there.
      rcases Entries.mem_put hv with heq | hmem
      · cases heq
        exact hlabel rfl
      · exact label v hmem
    · rcases Entries.mem_put hv with heq | hmem
      · cases heq
        exact hparameters rfl
      · exact parameters v hmem
    · rcases Entries.mem_put hv with heq | hmem
      · cases heq
        exact hresource segment rfl
      · exact resources segment v hmem

/-- The parameters of a resource may be put. -/
theorem putParameters {members : Members} (h : Passable (.obj members)) (inner : Members) :
    Passable (.obj (Entries.put members "uriParameters" (.obj inner))) :=
  h.put (fun heq => absurd heq (by decide)) (fun _ => ⟨inner, rfl⟩)
    (fun segment heq => absurd heq.symm (resourceKey_ne_uriParameters segment))

theorem newResource (segment : String) : Passable (newResource segment) := by
  unfold Raml.newResource
  split
  · exact empty
  · refine .obj (fun v hv => ?_) (fun v hv => ?_) (fun other v hv => ?_)
    · cases List.mem_singleton.mp hv
      exact ⟨segment, rfl⟩
    · have heq : "uriParameters" = "displayName" :=
        congrArg Prod.fst (List.mem_singleton.mp hv)
      exact absurd heq (by decide)
    · exact absurd (congrArg Prod.fst (List.mem_singleton.mp hv))
        (resourceKey_ne_displayName other)

/-- What is looked up as the name of a resource. -/
theorem find_displayName {members : Members} (h : Passable (.obj members)) :
    Members.find members "displayName" = .null
      ∨ ∃ s, Members.find members "displayName" = .str s := by
  cases h with
  | obj label _ _ =>
    unfold Members.find
    cases hget : Entries.get? members "displayName" with
    | none => exact Or.inl rfl
    | some v => exact Or.inr (label v (Entries.mem_of_get? hget))

/-- What is looked up as the parameters of a resource. -/
theorem find_uriParameters {members : Members} (h : Passable (.obj members)) :
    Members.find members "uriParameters" = .null
      ∨ ∃ inner, Members.find members "uriParameters" = .obj inner := by
  cases h with
  | obj _ parameters _ =>
    unfold Members.find
    cases hget : Entries.get? members "uriParameters" with
    | none => exact Or.inl rfl
    | some v => exact Or.inr (parameters v (Entries.mem_of_get? hget))

/-- Opening a resource gives it an object for its parameters. -/
theorem openedFor {resource : Members} (h : Passable (.obj resource)) :
    Passable (.obj (openedFor resource)) := by
  unfold Raml.openedFor
  split
  · exact h
  · exact h.putParameters []

/-- A resource with some parameters is passable again. -/
theorem withParameters {resource : Members} (h : Passable (.obj resource)) (moved : Members) :
    Passable (.obj (withParameters resource (.obj moved))) := by
  unfold Raml.withParameters
  split
  · exact (h.openedFor.putParameters moved).sublist (Entries.erase_sublist _ _)
  · exact h.openedFor.putParameters moved

/-- Before a method is put, the resource has parameters. -/
theorem find_openedFor {resource : Members} (h : Passable (.obj resource)) :
    ∃ inner, Members.find (Raml.openedFor resource) "uriParameters" = .obj inner := by
  unfold Raml.openedFor
  split
  · next hhas =>
    obtain ⟨v, hget⟩ := Option.isSome_iff_exists.mp hhas
    cases h with
    | obj _ parameters _ =>
      obtain ⟨inner, rfl⟩ := parameters v (Entries.mem_of_get? hget)
      exact ⟨inner, by rw [Members.find, hget]; rfl⟩
  · exact ⟨[], by rw [Members.find, Entries.get?_put_self]; rfl⟩

/-- The parameters of a passable method are members. -/
theorem parameterMembers {method : Members} (h : Passable (.obj method)) :
    ∃ parameters, Raml.parameterMembers (Members.find method "uriParameters")
      = .ok parameters := by
  rcases h.find_uriParameters with hnull | ⟨inner, hinner⟩
  · exact ⟨[], by rw [hnull]; rfl⟩
  · refine ⟨inner, ?_⟩
    rw [hinner, Raml.parameterMembers]
    split
    · next hvacant =>
      rw [List.isEmpty_iff.mp hvacant]
    · rfl

end Passable

/-- Parameters can be moved to a resource that has a name or none. -/
theorem hoist_obj {displayName : Value} (h : displayName = .null ∨ ∃ s, displayName = .str s)
    (parameters : Members) :
    ∀ moved : Members, ∃ after, hoist displayName (.obj moved) parameters = (.obj after, none) := by
  -- Over the parameters; those moved before are general, as each one may be added to them.
  induction parameters with
  | nil => exact fun moved => ⟨moved, rfl⟩
  | cons parameter rest ih =>
    intro moved
    obtain ⟨name, v⟩ := parameter
    rw [hoist]
    split
    · exact ih moved
    · next hgiven =>
      rcases h with rfl | ⟨s, rfl⟩
      · exact absurd rfl hgiven
      · simp only [Value.holds]
        -- The parameter is moved only if its name is part of the label.
        cases Value.isWithin name.toList s.toList with
        | false => exact ih moved
        | true => exact ih (Entries.put moved name v)

section

variable {key : String} (hlabel : key ≠ "displayName") (hparameters : key ≠ "uriParameters")
  {method : Members} (hmethod : Passable (.obj method))

include hlabel hparameters hmethod

/-- A method is put at a resource whatever its key, unless it is one of the two names that resources
have for themselves. -/
theorem insertHere_passable {resource : Members} (h : Passable (.obj resource)) :
    ∃ after, insertHere key (.obj method) resource = (after, none) ∧ Passable after := by
  obtain ⟨inner, hinner⟩ := h.find_openedFor
  obtain ⟨parameters, hmembers⟩ := hmethod.parameterMembers
  obtain ⟨moved, hhoist⟩ := hoist_obj h.find_displayName parameters inner
  rw [← hinner] at hhoist
  have hstored : Passable (.obj (Entries.erase method "uriParameters")) :=
    hmethod.sublist (Entries.erase_sublist method _)
  refine ⟨_, insertHere_eq hmembers hhoist, ?_⟩
  exact (h.withParameters moved).put (fun heq => absurd heq hlabel)
    (fun heq => absurd heq hparameters) fun _ _ => hstored

/-- **One insertion.** -/
theorem insertMethod_passable (segments : List String) :
    ∀ tree, Passable tree →
      ∃ after, insertMethod key (.obj method) segments tree = (after, none) ∧ Passable after := by
  -- Over the segments; a resource on the way may be a method, which is passable too.
  induction segments with
  | nil =>
    intro tree htree
    cases htree with
    | obj label parameters resources =>
      exact insertHere_passable hlabel hparameters hmethod (.obj label parameters resources)
  | cons segment segments ih =>
    intro tree htree
    cases htree with
    | @obj members label parameters resources =>
      have hchild : Passable
          ((Entries.get? members (resourceKey segment)).getD (newResource segment)) := by
        cases hget : Entries.get? members (resourceKey segment) with
        | none => exact Passable.newResource segment
        | some child => exact resources segment child (Entries.mem_of_get? hget)
      obtain ⟨child, hrun, hafter⟩ := ih _ hchild
      refine ⟨.obj (Entries.put members (resourceKey segment) child), ?_, ?_⟩
      · rw [insertMethod, hrun]
      · refine Passable.put (.obj label parameters resources) (fun heq => ?_) (fun heq => ?_)
          fun _ _ => hafter
        · exact absurd heq (resourceKey_ne_displayName segment)
        · exact absurd heq (resourceKey_ne_uriParameters segment)

end

/-- **All insertions.** -/
theorem insertAll_passable {insertions : List Insertion}
    (hkeys : ∀ i ∈ insertions, i.key ≠ "displayName" ∧ i.key ≠ "uriParameters")
    (hmethods : ∀ i ∈ insertions, Passable (.obj i.method)) :
    ∀ tree, Passable tree → ∃ after, insertAll tree insertions = .ok after ∧ Passable after := by
  -- Over the insertions, from any passable tree.
  induction insertions with
  | nil => exact fun tree htree => ⟨tree, rfl, htree⟩
  | cons i insertions ih =>
    intro tree htree
    obtain ⟨hlabel, hparameters⟩ := hkeys i List.mem_cons_self
    obtain ⟨placed, hrun, hplaced⟩ := insertMethod_passable hlabel hparameters
      (hmethods i List.mem_cons_self) i.segments tree htree
    obtain ⟨after, hrest, hafter⟩ := ih (fun j hj => hkeys j (List.mem_cons_of_mem _ hj))
      (fun j hj => hmethods j (List.mem_cons_of_mem _ hj)) placed hplaced
    have hplace : placeMethod tree i.segments i.key (.obj i.method) = .ok placed := by
      rw [placeMethod, hrun]
    exact ⟨after, Outcome.bind_eq_ok.mpr ⟨placed, hplace, hrest⟩, hafter⟩

end Ramlify.Raml
