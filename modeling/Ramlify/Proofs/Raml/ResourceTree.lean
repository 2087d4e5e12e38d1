import Ramlify.Proofs.Outcome
import Ramlify.Proofs.Raml.MethodPlacement

/-!
# Ramlify — the tree of resources as a store

`insertMethod` walks down a tree along the segments of a path, makes the resources that are missing
and hangs a method on the last one. This module says what a tree holds after **any** sequence of
insertions into the empty tree, read through two views:

* **`resourceAt`** — the resource that some segments lead to;
* **`Entries.get?`** — the members of one resource.

## The architecture

* **`ResourceFor`** — what one resource holds, said in terms of the insertions alone: its name is
  the last segment, its methods are the last ones inserted at it, its parameters are those that
  all insertions at it moved there.
* **`TreeFor`** — a (sub)tree all of whose resources are so. It is relative to the segments that
  lead to the subtree, which is what makes the induction over the segments of a path go through.
* **`insertHere_resourceFor`** — the last step of an insertion, at the resource itself.
* **`insertMethod_treeFor`** — one insertion turns a tree for some insertions into a tree for one
  more; `insertAll_treeFor` is the whole run.
-/

namespace Ramlify.Raml

/-! ## Views and insertions

A tree is read by paths and by names, and it is changed by insertions. -/

/-- The resource that some segments lead to. -/
def resourceAt : List String → Value → Option Members
  | [], .obj resource => some resource
  | segment :: segments, .obj resource =>
    (Entries.get? resource (resourceKey segment)).bind (resourceAt segments)
  | _, _ => none

/-- A method with the place in a tree where it is to stand. -/
structure Insertion where
  segments : List String
  key : String
  method : Members

namespace Insertion

/-- The parameters that a method brings along. -/
def parameters (i : Insertion) : Members :=
  match Members.find i.method "uriParameters" with
  | .obj parameters => parameters
  | _ => []

/-- What a tree keeps of a method: all but the parameters. -/
def stored (i : Insertion) : Value := .obj (Entries.erase i.method "uriParameters")

end Insertion

/-- The names under which methods can stand: neither those of resources nor the two that resources
have for themselves. -/
def IsMethodKey (name : String) : Prop :=
  name.startsWith "/" = false ∧ name ≠ "displayName" ∧ name ≠ "uriParameters"

/-- A method key, and parameters that are missing, null or an object. -/
structure Insertion.Admissible (i : Insertion) : Prop where
  key : IsMethodKey i.key
  parameters : Members.find i.method "uriParameters" = .null ∨
    Members.find i.method "uriParameters" = .obj i.parameters

/-- Inserts methods one after another. -/
def insertAll (tree : Value) (insertions : List Insertion) : Outcome Value :=
  insertions.foldlM (fun tree i => placeMethod tree i.segments i.key (.obj i.method)) tree

/-- Placing a method succeeds if the insertion does not fail. -/
theorem placeMethod_eq_ok {tree result method : Value} {segments : List String} {key : String} :
    placeMethod tree segments key method = .ok result
      ↔ insertMethod key method segments tree = (result, none) := by
  unfold placeMethod
  split
  · next heq => rw [heq, Except.ok.injEq, Prod.mk.injEq, and_iff_left rfl]
  · next heq => simp [heq]

/-- A run inserts its first method, and then all others. -/
theorem insertAll_cons_eq_ok {tree result : Value} {i : Insertion} {insertions : List Insertion} :
    insertAll tree (i :: insertions) = .ok result
      ↔ ∃ next, insertMethod i.key (.obj i.method) i.segments tree = (next, none)
          ∧ insertAll next insertions = .ok result := by
  rw [insertAll, List.foldlM_cons]
  refine Outcome.bind_eq_ok.trans (exists_congr fun next => ?_)
  rw [placeMethod_eq_ok, insertAll]

/-! ## What a resource should hold

The specification of the tree, in terms of the insertions only. -/

/-- The name of the resource that some segments lead to: the last segment, unless it is empty. -/
def labelOf (path : List String) : Option String := path.getLast?.filter (!·.isEmpty)

/-- The parameters whose names occur in the name of a resource. -/
def hoisted (label : Option String) (parameters : Members) : Members :=
  match label with
  | none => []
  | some label => parameters.filter fun parameter =>
      Value.isWithin parameter.1.toList label.toList

/-- The parameters that the insertions at a resource moved to it. -/
def parametersAt (insertions : List Insertion) (path : List String) : Members :=
  Entries.ofList ((insertions.filter (·.segments == path)).flatMap fun i =>
    hoisted (labelOf path) i.parameters)

/-- The method that was inserted last at a resource under a key. -/
def lastMethod (insertions : List Insertion) (path : List String) (key : String) : Option Value :=
  (insertions.reverse.find? fun i => i.segments == path && i.key == key).map (·.stored)

/-- A path that the insertions lead along. -/
def Reached (insertions : List Insertion) (path : List String) : Prop :=
  path = [] ∨ ∃ i ∈ insertions, path <+: i.segments

/-- What the resource at a path holds after some insertions. -/
structure ResourceFor (insertions : List Insertion) (path : List String) (resource : Members) :
    Prop where
  nodup : (Entries.keys resource).Nodup
  label : Entries.get? resource "displayName" = (labelOf path).map .str
  parameters : Entries.get? resource "uriParameters" = partOf (parametersAt insertions path)
  methods : ∀ key, IsMethodKey key →
    Entries.get? resource key = lastMethod insertions path key
  resources : ∀ segment v, Entries.get? resource (resourceKey segment) = some v →
    ∃ members, v = .obj members

/-- A subtree at a path all of whose resources hold what they should, and which has a resource
below exactly where the insertions lead. -/
structure TreeFor (insertions : List Insertion) (base : List String) (tree : Value) : Prop where
  resource : ∀ path resource, resourceAt path tree = some resource →
    ResourceFor insertions (base ++ path) resource
  reached : ∀ path, path ≠ [] →
    ((resourceAt path tree).isSome ↔ Reached insertions (base ++ path))

/-! ## Names of members

Resources stand under keys with a slash in front, everything else under other names. -/

/-- Different segments have different keys. -/
theorem resourceKey_injective {a b : String} (h : resourceKey a = resourceKey b) : a = b := by
  simpa [resourceKey] using h

/-- The key of a resource begins with a slash. -/
theorem startsWith_resourceKey (segment : String) :
    (resourceKey segment).startsWith "/" = true := by
  simp [resourceKey]

/-- A name that begins with a slash is that of a resource. -/
theorem exists_resourceKey {name : String} (h : name.startsWith "/" = true) :
    ∃ segment, name = resourceKey segment := by
  rw [String.startsWith_string_iff] at h
  obtain ⟨rest, hrest⟩ := h
  refine ⟨String.ofList rest, ?_⟩
  rw [← String.toList_inj, ← hrest]
  simp [resourceKey]

/-- A name that does not begin with a slash is not that of a resource. -/
theorem resourceKey_ne {name : String} (h : name.startsWith "/" = false) (segment : String) :
    resourceKey segment ≠ name := by
  intro heq
  have hslash := startsWith_resourceKey segment
  rw [heq, h] at hslash
  cases hslash

/-- A resource does not stand where the name of one stands. -/
theorem resourceKey_ne_displayName (segment : String) : resourceKey segment ≠ "displayName" :=
  resourceKey_ne (by simp) segment

/-- A resource does not stand where parameters stand. -/
theorem resourceKey_ne_uriParameters (segment : String) :
    resourceKey segment ≠ "uriParameters" :=
  resourceKey_ne (by simp) segment

/-! ## One more insertion, on the side of the specification

What the specification says after one more insertion, in terms of what it said before. -/

/-- Of the methods at one place the one inserted now is the last. -/
theorem lastMethod_concat (insertions : List Insertion) (i : Insertion) (path : List String)
    (key : String) :
    lastMethod (insertions ++ [i]) path key
      = if i.segments = path ∧ i.key = key then some i.stored
        else lastMethod insertions path key := by
  unfold lastMethod
  rw [List.reverse_append, List.reverse_singleton, List.singleton_append, List.find?_cons]
  by_cases h : i.segments = path ∧ i.key = key
  · rw [if_pos h, h.1, h.2]
    simp
  · have hne : (i.segments == path && i.key == key) = false := by simpa using h
    rw [if_neg h, hne]

/-- An insertion elsewhere moves no parameters. -/
theorem parametersAt_concat_of_ne (insertions : List Insertion) {i : Insertion}
    {path : List String} (h : i.segments ≠ path) :
    parametersAt (insertions ++ [i]) path = parametersAt insertions path := by
  have hne : (i.segments == path) = false := by simpa using h
  unfold parametersAt
  rw [List.filter_append, List.filter_cons, hne]
  simp

/-- An insertion at a resource puts its parameters after those of the insertions before. -/
theorem parametersAt_concat_self (insertions : List Insertion) {i : Insertion}
    {path : List String} (h : i.segments = path) :
    parametersAt (insertions ++ [i]) path
      = Entries.putAll (parametersAt insertions path) (hoisted (labelOf path) i.parameters) := by
  have heq : (i.segments == path) = true := by simpa using h
  unfold parametersAt
  rw [List.filter_append, List.filter_cons, heq, List.flatMap_append, Entries.putAll_ofList]
  simp

/-- An insertion leaves alone what the resources of other paths should hold. -/
theorem ResourceFor.concat {insertions : List Insertion} {path : List String}
    {resource : Members} (h : ResourceFor insertions path resource) {i : Insertion}
    (hne : i.segments ≠ path) : ResourceFor (insertions ++ [i]) path resource where
  nodup := h.nodup
  label := h.label
  parameters := by rw [parametersAt_concat_of_ne insertions hne]; exact h.parameters
  methods := by
    intro key hkey
    rw [lastMethod_concat, if_neg (fun hboth => hne hboth.1)]
    exact h.methods key hkey
  resources := h.resources

/-- One more insertion leads along its own path besides. -/
theorem reached_concat_iff {insertions : List Insertion} {i : Insertion} {path : List String} :
    Reached (insertions ++ [i]) path ↔ Reached insertions path ∨ path <+: i.segments := by
  unfold Reached
  simp only [List.mem_append, List.mem_singleton]
  constructor
  · rintro (hnil | ⟨j, hj | rfl, hprefix⟩)
    · exact Or.inl (Or.inl hnil)
    · exact Or.inl (Or.inr ⟨j, hj, hprefix⟩)
    · exact Or.inr hprefix
  · rintro ((hnil | ⟨j, hj, hprefix⟩) | hprefix)
    · exact Or.inl hnil
    · exact Or.inr ⟨j, Or.inl hj, hprefix⟩
    · exact Or.inr ⟨i, Or.inr rfl, hprefix⟩

/-! ## The last step: a method at its resource

Parameters are moved to the resource as far as its name has their names in it; then the method is
put. -/

/-- Parameters move by their names into those that are there already. -/
theorem hoist_named {label : String} (hlabel : label.isEmpty = false) (moved : Members)
    (parameters : Members) :
    hoist (.str label) (.obj moved) parameters
      = (.obj (Entries.putAll moved (hoisted (some label) parameters)), none) := by
  induction parameters generalizing moved with
  | nil => rfl
  | cons parameter rest ih =>
    obtain ⟨name, v⟩ := parameter
    rw [hoist, if_neg (by simp [Value.isVacant, hlabel])]
    simp only [Value.holds]
    -- A parameter is hoisted if its name is within the label.
    cases hwithin : Value.isWithin name.toList label.toList with
    | false =>
      simp only [ih, hoisted, List.filter_cons, hwithin]
      rfl
    | true =>
      simp only [Value.put, ih, hoisted, List.filter_cons, hwithin]
      rfl

/-- No parameters move to a resource without a name. -/
theorem hoist_unnamed (moved : Value) (parameters : Members) :
    hoist .null moved parameters = (moved, none) := by
  induction parameters generalizing moved with
  | nil => rfl
  | cons parameter rest ih =>
    rw [hoist, if_pos (show Value.null.isVacant = true from rfl), ih]

/-- What is moved to the resource of a path. -/
theorem hoist_labelOf (path : List String) (moved parameters : Members) :
    hoist (((labelOf path).map .str).getD .null) (.obj moved) parameters
      = (.obj (Entries.putAll moved (hoisted (labelOf path) parameters)), none) := by
  cases hlabel : labelOf path with
  | none => exact hoist_unnamed _ _
  | some label =>
    have hne : label.isEmpty = false := by
      have hfilter := (Option.filter_eq_some_iff.mp hlabel).2
      simpa using hfilter
    exact hoist_named hne moved parameters

/-- The parameters of an admissible insertion can be read. -/
theorem Insertion.Admissible.parameterMembers {i : Insertion} (h : i.Admissible) :
    parameterMembers (Members.find i.method "uriParameters") = .ok i.parameters := by
  rcases h.parameters with hnull | hobj
  · rw [Insertion.parameters, hnull]
    rfl
  · rw [hobj]
    cases i.parameters with
    | nil => rfl
    | cons parameter rest => rfl

/-- **The last step.** A method that is put into the resource it belongs to is the last one of its
key there, its parameters are with those of the methods before, and all else stays. -/
theorem insertHere_resourceFor {insertions : List Insertion} {resource : Members} {i : Insertion}
    (h : ResourceFor insertions i.segments resource) (hi : i.Admissible) :
    ∃ leaf, insertHere i.key (.obj i.method) resource = (.obj leaf, none)
      ∧ ResourceFor (insertions ++ [i]) i.segments leaf
      ∧ ∀ segment, Entries.get? leaf (resourceKey segment)
          = Entries.get? resource (resourceKey segment) := by
  set old := parametersAt insertions i.segments with hold
  set moved := Entries.putAll old (hoisted (labelOf i.segments) i.parameters) with hmoved
  have hlabel : Members.find resource "displayName"
      = ((labelOf i.segments).map .str).getD .null := by
    rw [Members.find, h.label]
  have hrun : insertHere i.key (.obj i.method) resource
      = (.obj (Entries.put (withParameters resource (.obj moved)) i.key i.stored), none) := by
    refine insertHere_eq hi.parameterMembers ?_
    rw [find_openedFor h.parameters, hlabel]
    exact hoist_labelOf i.segments old i.parameters
  have hkey : i.key ≠ "uriParameters" := hi.key.2.2
  have hresources : ∀ segment, Entries.get? (Entries.put (withParameters resource (.obj moved))
      i.key i.stored) (resourceKey segment) = Entries.get? resource (resourceKey segment) := by
    intro segment
    rw [Entries.get?_put_of_ne _ _ (resourceKey_ne hi.key.1 segment).symm,
      get?_withParameters_of_ne _ _ (resourceKey_ne_uriParameters segment)]
  refine ⟨_, hrun, ⟨?_, ?_, ?_, ?_, ?_⟩, hresources⟩
  · exact Entries.nodup_keys_put (nodup_withParameters h.nodup _) _ _
  · rw [Entries.get?_put_of_ne _ _ hi.key.2.1, get?_withParameters_of_ne _ _ (by decide)]
    exact h.label
  · rw [Entries.get?_put_of_ne _ _ hkey, get?_withParameters_self h.nodup, hmoved, hold,
      ← parametersAt_concat_self insertions rfl]
  · -- Under the key of the method there is that method, under the others what was there before.
    intro key hmethod
    rw [Entries.get?_put, lastMethod_concat]
    by_cases heq : i.key = key
    · rw [if_pos heq, if_pos ⟨rfl, heq⟩]
    · rw [if_neg heq, if_neg (fun hboth => heq hboth.2),
        get?_withParameters_of_ne _ _ hmethod.2.2]
      exact h.methods key hmethod
  · intro segment v hv
    rw [hresources] at hv
    exact h.resources segment v hv

/-! ## The way down

An insertion goes from a resource to the child of its first segment, which it makes if there is
none. -/

theorem resourceAt_cons (segment : String) (path : List String) (resource : Members) :
    resourceAt (segment :: path) (.obj resource)
      = (Entries.get? resource (resourceKey segment)).bind (resourceAt path) := rfl

theorem resourceAt_append (path more : List String) (tree : Value) :
    resourceAt (path ++ more) tree
      = (resourceAt path tree).bind fun resource => resourceAt more (.obj resource) := by
  induction path generalizing tree with
  | nil =>
    cases tree with
    | obj resource => rfl
    | null | bool | int | float | str | list =>
      -- From what is no resource nothing leads on, and the top itself is none.
      cases more <;> rfl
  | cons segment path ih =>
    cases tree with
    | obj resource =>
      rw [List.cons_append, resourceAt_cons, resourceAt_cons]
      cases Entries.get? resource (resourceKey segment) with
      | none => rfl
      | some child => exact ih child
    | null | bool | int | float | str | list => rfl

/-- The segments that lead to a resource lead along its parents. -/
theorem Reached.of_append {insertions : List Insertion} {path more : List String}
    (h : Reached insertions (path ++ more)) : Reached insertions path := by
  rcases h with hnil | ⟨i, hi, hprefix⟩
  · exact Or.inl (List.append_eq_nil_iff.mp hnil).1
  · exact Or.inr ⟨i, hi, (List.prefix_append path more).trans hprefix⟩

/-- The name of a resource is its segment, unless that is empty. -/
theorem labelOf_concat (base : List String) (segment : String) :
    labelOf (base ++ [segment]) = if segment.isEmpty then none else some segment := by
  rw [labelOf, List.getLast?_concat]
  cases h : segment.isEmpty <;> simp [Option.filter, h]

/-- A new resource is what should stand where no insertion has led so far. -/
theorem resourceFor_newResource {insertions : List Insertion} {base : List String}
    {segment : String} (h : ¬ Reached insertions (base ++ [segment])) :
    ∃ resource, newResource segment = .obj resource
      ∧ ResourceFor insertions (base ++ [segment]) resource
      ∧ ∀ other, Entries.get? resource (resourceKey other) = none := by
  have hnone : ∀ i ∈ insertions, i.segments ≠ base ++ [segment] := by
    intro i hi heq
    exact h (Or.inr ⟨i, hi, heq ▸ List.prefix_rfl⟩)
  -- No insertion has come here, so there are neither parameters nor methods.
  have hparameters : parametersAt insertions (base ++ [segment]) = [] := by
    have hfilter : insertions.filter (·.segments == base ++ [segment]) = [] := by
      rw [List.filter_eq_nil_iff]
      intro i hi
      simpa using hnone i hi
    rw [parametersAt, hfilter]
    rfl
  have hmethods : ∀ key, lastMethod insertions (base ++ [segment]) key = none := by
    intro key
    rw [lastMethod, Option.map_eq_none_iff, List.find?_eq_none]
    intro i hi
    simp [hnone i (List.mem_reverse.mp hi)]
  refine ⟨_, rfl, ?_, ?_⟩
  · refine ⟨?_, ?_, ?_, ?_, ?_⟩
    · split <;> simp [Entries.keys]
    · rw [labelOf_concat]
      split <;> rfl
    · rw [hparameters]
      split <;> rfl
    · intro key hkey
      rw [hmethods]
      split
      · rfl
      · rw [Entries.get?_cons, if_neg (Ne.symm hkey.2.1)]
        rfl
    · intro other v hv
      split at hv
      · cases hv
      · rw [Entries.get?_cons, if_neg (resourceKey_ne_displayName other).symm] at hv
        cases hv
  · intro other
    split
    · rfl
    · rw [Entries.get?_cons, if_neg (resourceKey_ne_displayName other).symm]
      rfl

/-- The resource one segment further down, or the new one that stands in for it. -/
theorem TreeFor.child {insertions : List Insertion} {base : List String} {resource : Members}
    (h : TreeFor insertions base (.obj resource)) (segment : String) :
    ∃ child, (Entries.get? resource (resourceKey segment)).getD (newResource segment) = .obj child
      ∧ TreeFor insertions (base ++ [segment]) (.obj child) := by
  have hroot : ResourceFor insertions (base ++ []) resource := h.resource [] resource rfl
  cases hget : Entries.get? resource (resourceKey segment) with
  | some v =>
    obtain ⟨child, rfl⟩ := hroot.resources segment v hget
    refine ⟨child, rfl, ?_, ?_⟩
    · intro path found hfound
      have hdown : resourceAt (segment :: path) (.obj resource) = some found := by
        rw [resourceAt_cons, hget]; exact hfound
      rw [List.append_assoc]
      exact h.resource (segment :: path) found hdown
    · intro path _
      have hdown := h.reached (segment :: path) (List.cons_ne_nil _ _)
      rw [resourceAt_cons, hget] at hdown
      rw [List.append_assoc]
      exact hdown
  | none =>
    -- Where no resource is, none of the insertions led.
    have hunreached : ¬ Reached insertions (base ++ [segment]) := by
      intro hreached
      have hsome := (h.reached [segment] (List.cons_ne_nil _ _)).mpr hreached
      rw [resourceAt_cons, hget] at hsome
      cases hsome
    obtain ⟨child, hchild, hfor, hleaf⟩ := resourceFor_newResource hunreached
    refine ⟨child, hchild, ?_, ?_⟩
    · intro path found hfound
      cases path with
      | nil =>
        cases hfound
        rw [List.append_nil]
        exact hfor
      | cons other path =>
        rw [resourceAt_cons, hleaf] at hfound
        cases hfound
    · intro path hpath
      cases path with
      | nil => exact absurd rfl hpath
      | cons other path =>
        rw [resourceAt_cons, hleaf]
        constructor
        · intro hsome
          cases hsome
        · intro hreached
          exact absurd hreached.of_append hunreached

/-! ## One insertion, and a run of them

By induction over the segments of the path, with the path so far as a parameter; and by induction
over the insertions. -/

/-- **The step.** Inserting a method into a tree for some insertions succeeds and gives a tree for
one insertion more. -/
theorem insertMethod_treeFor {insertions : List Insertion} {i : Insertion} (hi : i.Admissible) :
    ∀ (segments base : List String) (resource : Members), i.segments = base ++ segments →
      TreeFor insertions base (.obj resource) →
      ∃ after, insertMethod i.key (.obj i.method) segments (.obj resource) = (.obj after, none)
        ∧ TreeFor (insertions ++ [i]) base (.obj after) := by
  -- Induction on the segments that are still to go; `base` are those behind. The subtree that the
  -- next segment leads to is a tree for the same insertions, relative to one segment more.
  intro segments
  induction segments with
  | nil =>
    intro base resource hsegments h
    rw [List.append_nil] at hsegments
    have hroot : ResourceFor insertions i.segments resource := by
      have hnil := h.resource [] resource rfl
      rwa [List.append_nil, ← hsegments] at hnil
    obtain ⟨after, hrun, hfor, hbelow⟩ := insertHere_resourceFor hroot hi
    refine ⟨after, hrun, ?_, ?_⟩
    · intro path found hfound
      cases path with
      | nil =>
        cases hfound
        rwa [List.append_nil, ← hsegments]
      | cons segment path =>
        rw [resourceAt_cons, hbelow] at hfound
        refine (h.resource (segment :: path) found hfound).concat ?_
        rw [hsegments]
        simp
    · intro path hpath
      obtain ⟨segment, path, rfl⟩ := List.exists_cons_of_ne_nil hpath
      rw [resourceAt_cons, hbelow, ← resourceAt_cons, h.reached _ hpath, reached_concat_iff]
      -- The insertion ends here, so it leads no further down.
      have hnot : ¬ base ++ segment :: path <+: i.segments := by
        rw [hsegments]
        intro hprefix
        have hlength := hprefix.length_le
        rw [List.length_append, List.length_cons] at hlength
        omega
      exact ⟨Or.inl, fun hor => hor.resolve_right hnot⟩
  | cons segment segments ih =>
    intro base resource hsegments h
    obtain ⟨child, hchild, hsub⟩ := h.child segment
    have hbase : i.segments = (base ++ [segment]) ++ segments := by
      rw [hsegments, List.append_assoc, List.singleton_append]
    obtain ⟨after, hrun, hafter⟩ := ih (base ++ [segment]) child hbase hsub
    have hroot : ResourceFor insertions (base ++ []) resource := h.resource [] resource rfl
    have hget : ∀ name, Entries.get?
        (Entries.put resource (resourceKey segment) (.obj after)) name
          = if resourceKey segment = name then some (.obj after)
            else Entries.get? resource name := Entries.get?_put _ _ _
    refine ⟨Entries.put resource (resourceKey segment) (.obj after), ?_, ?_, ?_⟩
    · simp only [insertMethod, hchild, hrun]
    · intro path found hfound
      cases path with
      | nil =>
        -- The resource itself: only the member of the next segment was written.
        cases hfound
        have hne : i.segments ≠ base ++ [] := by rw [hsegments]; simp
        have hkept := hroot.concat hne
        refine ⟨Entries.nodup_keys_put hkept.nodup _ _, ?_, ?_, ?_, ?_⟩
        · rw [hget, if_neg (resourceKey_ne_displayName segment), hkept.label]
        · rw [hget, if_neg (resourceKey_ne_uriParameters segment), hkept.parameters]
        · intro key hkey
          rw [hget, if_neg (resourceKey_ne hkey.1 segment), hkept.methods key hkey]
        · intro other v hv
          rw [hget] at hv
          split at hv
          · exact ⟨after, (Option.some.inj hv).symm⟩
          · exact hkept.resources other v hv
      | cons other path =>
        -- Below the next segment the resources of the new subtree, elsewhere the old ones.
        rw [resourceAt_cons, hget] at hfound
        by_cases hother : resourceKey segment = resourceKey other
        · rw [if_pos hother] at hfound
          have hfor := hafter.resource path found hfound
          rwa [List.append_assoc, resourceKey_injective hother] at hfor
        · rw [if_neg hother] at hfound
          refine (h.resource (other :: path) found hfound).concat ?_
          intro heq
          rw [hsegments] at heq
          exact hother (congrArg resourceKey (List.cons.inj (List.append_cancel_left heq)).1)
    · intro path hpath
      obtain ⟨other, path, rfl⟩ := List.exists_cons_of_ne_nil hpath
      rw [resourceAt_cons, hget]
      by_cases hother : resourceKey segment = resourceKey other
      · rw [if_pos hother, ← resourceKey_injective hother]
        cases path with
        | nil =>
          have hreached : Reached (insertions ++ [i]) (base ++ [segment]) :=
            reached_concat_iff.mpr (Or.inr (hbase ▸ List.prefix_append _ _))
          exact ⟨fun _ => hreached, fun _ => rfl⟩
        | cons next path =>
          have hdown := hafter.reached (next :: path) (List.cons_ne_nil _ _)
          rwa [List.append_assoc] at hdown
      · rw [if_neg hother, ← resourceAt_cons, h.reached _ hpath, reached_concat_iff]
        have hnot : ¬ base ++ other :: path <+: i.segments := by
          rw [hsegments, List.prefix_append_right_inj, List.cons_prefix_cons]
          exact fun hprefix => hother (congrArg resourceKey hprefix.1.symm)
        exact ⟨Or.inl, fun hor => hor.resolve_right hnot⟩

/-- The empty tree is the tree for no insertions. -/
theorem treeFor_nil : TreeFor [] [] (.obj []) where
  resource := by
    intro path resource h
    -- Only the top is there.
    cases path with
    | nil =>
      cases h
      exact ⟨List.nodup_nil, rfl, rfl, fun _ _ => rfl, fun _ _ hv => nomatch hv⟩
    | cons segment path => cases h
  reached := by
    intro path hpath
    obtain ⟨segment, path, rfl⟩ := List.exists_cons_of_ne_nil hpath
    constructor
    · intro hsome
      cases hsome
    · rintro (hnil | ⟨i, hi, _⟩)
      · cases hnil
      · cases hi

theorem placeMethod_treeFor {insertions : List Insertion} {tree : Members}
    (h : TreeFor insertions [] (.obj tree)) {i : Insertion} (hi : i.Admissible) :
    ∃ after, placeMethod (.obj tree) i.segments i.key (.obj i.method) = .ok (.obj after)
      ∧ TreeFor (insertions ++ [i]) [] (.obj after) := by
  obtain ⟨after, hrun, hafter⟩ := insertMethod_treeFor hi i.segments [] tree rfl h
  refine ⟨after, ?_, hafter⟩
  rw [placeMethod, hrun]

/-- **The run.** Any insertions into a tree for some insertions succeed and give the tree for all of
them. -/
theorem insertAll_treeFor {done : List Insertion} {tree : Members}
    (h : TreeFor done [] (.obj tree)) (insertions : List Insertion)
    (hall : ∀ i ∈ insertions, i.Admissible) :
    ∃ after, insertAll (.obj tree) insertions = .ok (.obj after)
      ∧ TreeFor (done ++ insertions) [] (.obj after) := by
  -- What was inserted moves over to `done`.
  induction insertions generalizing done tree with
  | nil => exact ⟨tree, rfl, by rwa [List.append_nil]⟩
  | cons i insertions ih =>
    obtain ⟨next, hstep, hnext⟩ := placeMethod_treeFor h (hall i List.mem_cons_self)
    obtain ⟨after, hrun, hafter⟩ :=
      ih hnext (fun j hj => hall j (List.mem_cons_of_mem _ hj))
    refine ⟨after, ?_, ?_⟩
    · rw [insertAll, List.foldlM_cons, hstep]
      exact hrun
    · rwa [List.append_assoc, List.singleton_append] at hafter

/-! ## The tree read as a store

Reading a tree at a path and under a key, after any insertions. -/

/-- What stands under a key at the resource of a path. -/
def entryAt (path : List String) (key : String) (tree : Value) : Option Value :=
  (resourceAt path tree).bind fun resource => Entries.get? resource key

theorem entryAt_cons (segment : String) (path : List String) (key : String) (resource : Members) :
    entryAt (segment :: path) key (.obj resource)
      = (Entries.get? resource (resourceKey segment)).bind (entryAt path key) := by
  rw [entryAt, resourceAt_cons, Option.bind_assoc]
  rfl

/-- What has something at the end of a path is not empty. -/
theorem isVacant_of_entryAt {path : List String} {key : String} {tree v : Value}
    (h : entryAt path key tree = some v) : tree.isVacant = false := by
  cases tree with
  | obj members =>
    cases members with
    | nil => cases path <;> cases h
    | cons member rest => rfl
  | null | bool | int | float | str | list => cases path <;> cases h

/-- A method key reads as the method inserted last, also where no resource is. -/
theorem TreeFor.entryAt_eq {insertions : List Insertion} {tree : Members}
    (h : TreeFor insertions [] (.obj tree)) (path : List String) {key : String}
    (hkey : IsMethodKey key) :
    entryAt path key (.obj tree) = lastMethod insertions path key := by
  unfold entryAt
  cases hfound : resourceAt path (.obj tree) with
  | some resource => exact (h.resource path resource hfound).methods key hkey
  | none =>
    have hpath : path ≠ [] := by
      rintro rfl
      cases hfound
    -- Where there is no resource no insertion led, so none has a method there.
    have hunreached : ¬ Reached insertions path := by
      intro hreached
      have hsome := (h.reached path hpath).mpr hreached
      rw [hfound] at hsome
      cases hsome
    have hnone : lastMethod insertions path key = none := by
      rw [lastMethod, Option.map_eq_none_iff, List.find?_eq_none]
      intro i hi hboth
      rw [Bool.and_eq_true, beq_iff_eq] at hboth
      exact hunreached (Or.inr ⟨i, List.mem_reverse.mp hi, hboth.1 ▸ List.prefix_rfl⟩)
    rw [hnone]
    rfl

/-- The last of several insertions at one place is the one after which there is no other. -/
theorem lastMethod_of_last {before after : List Insertion} {i : Insertion}
    (h : ∀ j ∈ after, ¬ (j.segments = i.segments ∧ j.key = i.key)) :
    lastMethod (before ++ i :: after) i.segments i.key = some i.stored := by
  induction after using List.reverseRecOn with
  | nil => rw [lastMethod_concat, if_pos ⟨rfl, rfl⟩]
  | append_singleton after j ih =>
    rw [← List.cons_append, ← List.append_assoc, lastMethod_concat,
      if_neg (h j (List.mem_append_right _ List.mem_cons_self))]
    exact ih (fun k hk => h k (List.mem_append_left _ hk))

/-- A method that was inserted last somewhere was inserted there. -/
theorem exists_of_lastMethod {insertions : List Insertion} {path : List String} {key : String}
    {v : Value} (h : lastMethod insertions path key = some v) :
    ∃ i ∈ insertions, i.segments = path ∧ i.key = key := by
  obtain ⟨i, hfind, _⟩ := Option.map_eq_some_iff.mp h
  have hboth := List.find?_some hfind
  rw [Bool.and_eq_true, beq_iff_eq, beq_iff_eq] at hboth
  exact ⟨i, List.mem_reverse.mp (List.mem_of_find?_eq_some hfind), hboth⟩

/-- The members of a resource by kind: resources below it, methods inserted at it, its parameters
and its name. -/
theorem TreeFor.member_cases {insertions : List Insertion} {tree : Members}
    (h : TreeFor insertions [] (.obj tree)) {path : List String} {resource : Members}
    (hfound : resourceAt path (.obj tree) = some resource) {name : String}
    (hname : name ∈ Entries.keys resource) :
    (∃ segment, name = resourceKey segment
        ∧ (resourceAt (path ++ [segment]) (.obj tree)).isSome)
      ∨ (∃ i ∈ insertions, i.segments = path ∧ i.key = name)
      ∨ name = "uriParameters" ∨ name = "displayName" := by
  have hfor : ResourceFor insertions path resource := h.resource path resource hfound
  obtain ⟨v, hv⟩ := Option.isSome_iff_exists.mp (Entries.isSome_get?_iff.mpr hname)
  -- The name tells which kind of member it is.
  by_cases hslash : name.startsWith "/" = true
  · obtain ⟨segment, rfl⟩ := exists_resourceKey hslash
    obtain ⟨child, rfl⟩ := hfor.resources segment v hv
    refine Or.inl ⟨segment, rfl, ?_⟩
    rw [resourceAt_append, hfound, Option.bind_some, resourceAt_cons, hv]
    rfl
  · by_cases hlabel : name = "displayName"
    · exact Or.inr (Or.inr (Or.inr hlabel))
    · by_cases hparameters : name = "uriParameters"
      · exact Or.inr (Or.inr (Or.inl hparameters))
      · have hkey : IsMethodKey name := ⟨by simpa using hslash, hlabel, hparameters⟩
        rw [hfor.methods name hkey] at hv
        exact Or.inr (Or.inl (exists_of_lastMethod hv))

/-- A label is there exactly for a last segment that is not empty. -/
theorem labelOf_eq_some_iff {path : List String} {segment : String} :
    labelOf path = some segment ↔ path.getLast? = some segment ∧ segment ≠ "" := by
  rw [labelOf, Option.filter_eq_some_iff]
  simp

/-- **The tree of resources is a store.** After any sequence of insertions into the empty tree:

* a path leads to a resource exactly if it is empty or leads along the segments of an insertion;
* under the key of an insertion stands its method without the parameters, unless a later one was
  inserted at the same place;
* the members of a resource are the resources below it, the methods inserted at it, its parameters,
  and its name, which is its own last segment and is there exactly when that is not empty;
* one more insertion changes no method but the one at its own place. -/
theorem resourceTree_store (insertions : List Insertion)
    (hall : ∀ i ∈ insertions, i.Admissible) :
    ∃ tree, insertAll (.obj []) insertions = .ok tree
      ∧ (∀ path, (∃ resource, resourceAt path tree = some resource)
          ↔ path = [] ∨ ∃ i ∈ insertions, path <+: i.segments)
      ∧ (∀ before i after, insertions = before ++ i :: after →
          (∀ j ∈ after, ¬ (j.segments = i.segments ∧ j.key = i.key)) →
          ∃ resource, resourceAt i.segments tree = some resource
            ∧ Entries.get? resource i.key
                = some (.obj (Entries.erase i.method "uriParameters")))
      ∧ (∀ path resource, resourceAt path tree = some resource →
          (∀ name ∈ Entries.keys resource,
            (∃ segment, name = resourceKey segment
                ∧ ∃ child, resourceAt (path ++ [segment]) tree = some child)
              ∨ (∃ i ∈ insertions, i.segments = path ∧ i.key = name)
              ∨ name = "uriParameters" ∨ name = "displayName")
          ∧ ∀ v, Entries.get? resource "displayName" = some v
              ↔ ∃ segment, v = .str segment ∧ segment ≠ "" ∧ path.getLast? = some segment)
      ∧ ∀ i : Insertion, i.Admissible →
          ∃ after, placeMethod tree i.segments i.key (.obj i.method) = .ok after
            ∧ ∀ path key, IsMethodKey key → ¬ (path = i.segments ∧ key = i.key) →
                entryAt path key after = entryAt path key tree := by
  -- The tree is the one for these insertions (`TreeFor`), and each part is read off that.
  obtain ⟨tree, hrun, h⟩ := insertAll_treeFor treeFor_nil insertions hall
  rw [List.nil_append] at h
  refine ⟨.obj tree, hrun, ?_, ?_, ?_, ?_⟩
  · intro path
    cases path with
    | nil => exact ⟨fun _ => Or.inl rfl, fun _ => ⟨tree, rfl⟩⟩
    | cons segment path =>
      rw [← Option.isSome_iff_exists]
      exact h.reached _ (List.cons_ne_nil _ _)
  · rintro before i after rfl hlast
    have hi : i.Admissible := hall i (List.mem_append_right _ List.mem_cons_self)
    have hentry := h.entryAt_eq i.segments hi.key
    -- Nothing later stands at the same place, so this is the last method there.
    rw [lastMethod_of_last hlast, entryAt, Option.bind_eq_some_iff] at hentry
    exact hentry
  · intro path resource hfound
    refine ⟨?_, ?_⟩
    · intro name hname
      have hcases := h.member_cases hfound hname
      simp only [Option.isSome_iff_exists] at hcases
      exact hcases
    · intro v
      have hlabel := (h.resource path resource hfound).label
      rw [List.nil_append] at hlabel
      rw [hlabel, Option.map_eq_some_iff]
      simp only [labelOf_eq_some_iff]
      constructor
      · rintro ⟨segment, ⟨hlast, hne⟩, rfl⟩
        exact ⟨segment, rfl, hne, hlast⟩
      · rintro ⟨segment, rfl, hne, hlast⟩
        exact ⟨segment, ⟨hlast, hne⟩, rfl⟩
  · intro i hi
    -- One more insertion gives the tree for all of them, in which only its own place has another
    -- last method.
    obtain ⟨after, hplace, hafter⟩ := placeMethod_treeFor h hi
    refine ⟨.obj after, hplace, ?_⟩
    intro path key hkey hother
    rw [hafter.entryAt_eq path hkey, h.entryAt_eq path hkey, lastMethod_concat,
      if_neg (fun hboth => hother ⟨hboth.1.symm, hboth.2.symm⟩)]

/-- Two methods at `/users/{id}`, one of them replaced, a method at the root and one below an
empty segment. -/
def overlappingInsertions : List Insertion :=
  [{ segments := ["users", "\x7bid\x7d"], key := "get", method :=
      [("uriParameters", .obj [("id", .obj [("type", .str "string")])])] },
   { segments := ["users", "\x7bid\x7d"], key := "put", method := [] },
   { segments := [], key := "options", method := [("uriParameters", .null)] },
   { segments := ["users", ""], key := "get", method := [] },
   { segments := ["users", "\x7bid\x7d"], key := "get", method :=
      [("description", .str "One user.")] }]

/-- The keys are those of methods, and the parameters are objects where there are any. -/
theorem overlappingInsertions_admissible : ∀ i ∈ overlappingInsertions, i.Admissible := by
  intro i hi
  simp only [overlappingInsertions, List.mem_cons, List.not_mem_nil, or_false] at hi
  rcases hi with rfl | rfl | rfl | rfl | rfl
  all_goals
    refine ⟨⟨by simp, by decide, by decide⟩, ?_⟩
    simp [Insertion.parameters, Members.find, Entries.get?]

/-- The store holds the later of the two methods under `get`. -/
theorem resourceTree_store_overlapping :
    (∀ i ∈ overlappingInsertions, i.Admissible)
      ∧ ∃ tree, insertAll (.obj []) overlappingInsertions = .ok tree
        ∧ ∃ resource, resourceAt ["users", "\x7bid\x7d"] tree = some resource
          ∧ Entries.get? resource "get" = some (.obj [("description", .str "One user.")]) := by
  refine ⟨overlappingInsertions_admissible, ?_⟩
  obtain ⟨tree, hrun, _, hmethods, _⟩ :=
    resourceTree_store overlappingInsertions overlappingInsertions_admissible
  exact ⟨tree, hrun, hmethods (overlappingInsertions.take 4) _ [] rfl (by simp)⟩

end Ramlify.Raml
