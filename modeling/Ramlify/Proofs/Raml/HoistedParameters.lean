import Mathlib.Data.List.Infix
import Ramlify.Proofs.Raml.PathParameters

/-!
# Ramlify — the parameters that resources take over

Each insertion opens the parameters of a resource, moves those of its method there whose names occur
in the name of the resource, and takes the map away again if nothing is in it. After any sequence of
insertions the parameters of a resource are those of all methods that were ever inserted at it, also
of methods that others have replaced since.

* **`parametersAt_eq_latest`** — what the resource of a path should have,
  said by the parameters that the insertions bring along to it.
* **`parameters_hoisted`** — what the resources of a tree have.
-/

namespace Ramlify.Raml

/-- The parameters that the insertions at a path bring along, in the order of the insertions. -/
def broughtTo (insertions : List Insertion) (path : List String) : Members :=
  (insertions.filter (·.segments == path)).flatMap (·.parameters)

/-- The parameters whose names are part of a label. -/
def namedWithin (label : String) (parameters : Members) : Members :=
  parameters.filter fun parameter => decide (parameter.1.toList <:+: label.toList)

/-- At a resource that is named, the parameters that are moved are those named within its name. -/
theorem hoisted_eq_namedWithin (label : String) (parameters : Members) :
    hoisted (some label) parameters = namedWithin label parameters := by
  apply List.filter_congr
  intro parameter _
  rw [Bool.eq_iff_iff, decide_eq_true_iff]
  exact Value.isWithin_iff

/-- The parameters of a resource are those brought to it that belong there, each name once. -/
theorem parametersAt_eq_latest (insertions : List Insertion) {path : List String} {label : String}
    (hlabel : labelOf path = some label) :
    parametersAt insertions path
      = Entries.latest (namedWithin label (broughtTo insertions path)) := by
  have hbrought : (insertions.filter (·.segments == path)).flatMap
        (fun i => hoisted (some label) i.parameters)
      = namedWithin label (broughtTo insertions path) := by
    simp only [hoisted_eq_namedWithin, namedWithin, broughtTo, List.filter_flatMap]
  rw [parametersAt, hlabel, Entries.ofList_eq_latest, hbrought]

/-- A resource without a name gets no parameters. -/
theorem parametersAt_eq_nil (insertions : List Insertion) {path : List String}
    (hlabel : labelOf path = none) : parametersAt insertions path = [] := by
  have hnone : (insertions.filter (·.segments == path)).flatMap
      (fun i => hoisted none i.parameters) = [] :=
    List.flatMap_eq_nil_iff.mpr fun _ _ => rfl
  rw [parametersAt, hlabel, hnone]
  rfl

/-- What a tree keeps of a method has no parameters. -/
theorem exists_of_lastMethod_eq_some {insertions : List Insertion}
    (hnames : ∀ i ∈ insertions, (Entries.keys i.method).Nodup) {path : List String} {key : String}
    {v : Value} (h : lastMethod insertions path key = some v) :
    ∃ method : Members, v = .obj method ∧ "uriParameters" ∉ Entries.keys method := by
  obtain ⟨i, hfind, rfl⟩ := Option.map_eq_some_iff.mp h
  have hi : i ∈ insertions := List.mem_reverse.mp (List.mem_of_find?_eq_some hfind)
  exact ⟨_, rfl, Entries.get?_eq_none_iff.mp (Entries.get?_erase_self (hnames i hi) _)⟩

/-- **Parameters move to the resources that are named by them.** After any sequence of insertions
into the empty tree, at every resource:

* no method has parameters;
* the parameters of the resource are not empty, if it has any;
* a resource without a name has none;
* a resource with a name has those that the insertions at it brought along, also the ones whose
  methods were replaced later, as far as their names are part of the name of the resource. Each name
  stands where it was brought first, with what was brought last under it (`Entries.latest`). -/
theorem parameters_hoisted (insertions : List Insertion) (hall : ∀ i ∈ insertions, i.Admissible)
    (hnames : ∀ i ∈ insertions, (Entries.keys i.method).Nodup) :
    ∃ tree, insertAll (.obj []) insertions = .ok tree
      ∧ ∀ path resource, resourceAt path tree = some resource →
        (∀ key v, IsMethodKey key → Entries.get? resource key = some v →
          ∃ method : Members, v = .obj method ∧ "uriParameters" ∉ Entries.keys method)
        ∧ (∀ v, Entries.get? resource "uriParameters" = some v →
          ∃ parameters : Members, v = .obj parameters ∧ parameters ≠ [])
        ∧ ((Entries.get? resource "displayName" = none
            ∧ Entries.get? resource "uriParameters" = none)
          ∨ ∃ label, Entries.get? resource "displayName" = some (.str label)
            ∧ Entries.get? resource "uriParameters"
              = partOf (Entries.latest (namedWithin label (broughtTo insertions path)))) := by
  obtain ⟨tree, hrun, h⟩ := insertAll_treeFor treeFor_nil insertions hall
  rw [List.nil_append] at h
  refine ⟨.obj tree, hrun, fun path resource hfound => ?_⟩
  have hfor : ResourceFor insertions path resource := h.resource path resource hfound
  refine ⟨fun key v hkey hv => ?_, fun v hv => ?_, ?_⟩
  · rw [hfor.methods key hkey] at hv
    exact exists_of_lastMethod_eq_some hnames hv
  · rw [hfor.parameters, partOf] at hv
    split at hv
    · cases hv
    · next hgiven =>
      cases hv
      exact ⟨_, rfl, fun hnil => hgiven (by rw [hnil]; rfl)⟩
  · -- The top of the tree has no name, and every other resource has that of the last segment of its
    -- path.
    rw [hfor.label, hfor.parameters]
    cases hlabel : labelOf path with
    | none =>
      left
      rw [parametersAt_eq_nil insertions hlabel]
      exact ⟨rfl, rfl⟩
    | some label =>
      exact Or.inr ⟨label, rfl, by rw [parametersAt_eq_latest insertions hlabel]⟩

/-- Methods at `/pets/{petId}-{tag}` and below, of which the one that was inserted first is replaced
by the last. -/
def layeredInsertions : List Insertion :=
  [{ segments := ["pets", "\x7bpetId\x7d-\x7btag\x7d"], key := "get", method :=
      [("uriParameters", .obj [("petId", .str "first"), ("other", .null)])] },
   { segments := ["pets", "\x7bpetId\x7d-\x7btag\x7d", "\x7btag\x7d"], key := "get", method :=
      [("uriParameters", .obj [("petId", .str "below")])] },
   { segments := ["pets", "\x7bpetId\x7d-\x7btag\x7d"], key := "put", method :=
      [("uriParameters", .obj [("tag", .str "second"), ("petId", .str "second")])] },
   { segments := ["pets", "\x7bpetId\x7d-\x7btag\x7d"], key := "get", method :=
      [("description", .str "One pet.")] }]

/-- The parameters of the first method are still there, one of them with its later value. -/
theorem parameters_hoisted_layered :
    (∀ i ∈ layeredInsertions, i.Admissible)
      ∧ (∀ i ∈ layeredInsertions, (Entries.keys i.method).Nodup)
      ∧ ∃ tree resource, insertAll (.obj []) layeredInsertions = .ok tree
        ∧ resourceAt ["pets", "\x7bpetId\x7d-\x7btag\x7d"] tree = some resource
        ∧ Entries.get? resource "uriParameters"
          = some (.obj [("petId", .str "second"), ("tag", .str "second")]) := by
  have hall : ∀ i ∈ layeredInsertions, i.Admissible := by
    intro i hi
    simp only [layeredInsertions, List.mem_cons, List.not_mem_nil, or_false] at hi
    rcases hi with rfl | rfl | rfl | rfl
    all_goals
      refine ⟨⟨by simp, by decide, by decide⟩, ?_⟩
      simp [Insertion.parameters, Members.find, Entries.get?]
  have hnames : ∀ i ∈ layeredInsertions, (Entries.keys i.method).Nodup := by decide
  obtain ⟨tree, hrun, hresources⟩ := parameters_hoisted layeredInsertions hall hnames
  obtain ⟨reached, hrun', htree⟩ := insertAll_treeFor treeFor_nil layeredInsertions hall
  cases hrun.symm.trans hrun'
  have hsome := (htree.reached ["pets", "\x7bpetId\x7d-\x7btag\x7d"] (List.cons_ne_nil _ _)).mpr
    (Or.inr ⟨_, List.mem_cons_self, List.prefix_rfl⟩)
  obtain ⟨resource, hfound⟩ := Option.isSome_iff_exists.mp hsome
  have hname : labelOf ["pets", "\x7bpetId\x7d-\x7btag\x7d"]
      = some "\x7bpetId\x7d-\x7btag\x7d" := by decide
  have hlabel : Entries.get? resource "displayName" = some (.str "\x7bpetId\x7d-\x7btag\x7d") :=
    (htree.resource _ resource hfound).label.trans (congrArg _ hname)
  -- Of the parameters that are brought to the leaf only the ones that its name has in it are
  -- hoisted.
  have hwithin : namedWithin "\x7bpetId\x7d-\x7btag\x7d"
        (broughtTo layeredInsertions ["pets", "\x7bpetId\x7d-\x7btag\x7d"])
      = [("petId", .str "first"), ("tag", .str "second"), ("petId", .str "second")] := by
    have hpet : "petId".toList <:+: "\x7bpetId\x7d-\x7btag\x7d".toList := by decide +kernel
    have htag : "tag".toList <:+: "\x7bpetId\x7d-\x7btag\x7d".toList := by decide +kernel
    have hother : ¬ "other".toList <:+: "\x7bpetId\x7d-\x7btag\x7d".toList := by decide +kernel
    show namedWithin _ [("petId", .str "first"), ("other", .null), ("tag", .str "second"),
      ("petId", .str "second")] = _
    simp only [namedWithin, List.filter_cons, hpet, htag, hother, decide_true, decide_false,
      if_true, if_false, Bool.false_eq_true, List.filter_nil]
  obtain ⟨_, _, hparameters⟩ := hresources _ resource hfound
  refine ⟨hall, hnames, _, resource, hrun, hfound, ?_⟩
  rcases hparameters with ⟨hnone, _⟩ | ⟨label, hsame, hparameters⟩
  · cases hlabel.symm.trans hnone
  · cases hlabel.symm.trans hsame
    rw [hparameters, hwithin]
    simp [Entries.latest, List.eraseDups_cons, partOf]

end Ramlify.Raml
