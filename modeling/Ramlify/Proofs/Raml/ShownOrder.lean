import Mathlib.Data.Finset.Card
import Mathlib.Data.List.Nodup
import Ramlify.Proofs.Grouping
import Ramlify.Proofs.Raml.DefinitionParts

/-!
# Ramlify — the order in which operations and resources are shown

The display groups of an API list ids, some of them twice, some of them of nothing. What counts is
where an id stands first, and how many different ids stand before; operations are sorted by that,
and those of one place keep their order. A resource is made when the first operation below it is
inserted, so the resources at the top of a definition are in the order of the operations.

* **`position_listedIds`** — the place of an operation, said by the items of the groups.
* **`mergeSort_numbered`** — what stable sorting does, said by the numbers of the items.
* **`keys_insertAll`** — the top of a tree, by induction on the insertions.
* **`operations_inOrder`** — the order of operations, and from it that of the resources at the top.
-/

namespace Ramlify.Raml

/-! ## Places

The ids that are listed are looked up as keys, and keys can be equal that are not the same, a number
and a truth value for instance. Each is taken by its representative, so that counting different keys
is counting representatives. -/

/-- What keys that are equal have in common. -/
structure Representative where
  canonical : Scalar
  deriving DecidableEq

def representative (key : Scalar) : Representative := ⟨key.canonical⟩

/-- Keys are equal if their representatives are. -/
theorem beq_representative (a b : Scalar) : (representative a == representative b) = (a == b) := by
  refine decide_eq_decide.mpr ?_
  rw [representative, representative, Representative.mk.injEq]

/-- The ids of the operations that display groups list, as often as they are listed. -/
def itemIds (groups : List Members) : Outcome (List Scalar) := do
  return (← groups.mapM idsOfGroup).flatten

/-- The number of different ids before the first one that is equal to a given id, and -1 if there is
none. -/
def placeOf (ids : List Scalar) (id : Option String) : Int :=
  if ids.any (· == keyOfId id) then
    ((ids.takeWhile (· != keyOfId id)).map representative).toFinset.card
  else -1

/-- The ids that are kept of some: each where it stands first. -/
def distinctIds (ids : List Scalar) : List Scalar :=
  Entries.keys (Entries.ofList (ids.map fun id => (id, ())))

/-- The listed ids are those of the items, each kept once. -/
theorem listedIds_eq (groups : List Members) :
    listedIds groups = (itemIds groups).map distinctIds := by
  unfold listedIds itemIds
  cases groups.mapM idsOfGroup <;> rfl

/-- Keeping each id once is keeping each representative once. -/
theorem map_representative_distinctIds (ids : List Scalar) :
    (distinctIds ids).map representative = (ids.map representative).eraseDups := by
  have hpairs := Entries.ofList_map beq_representative (id : Unit → Unit)
    (ids.map fun id => (id, ()))
  have hkeys := congrArg Entries.keys hpairs
  rw [Entries.keys_ofList] at hkeys
  simpa [distinctIds, Entries.keys, Function.comp_def] using hkeys.symm

theorem length_eraseDups {α : Type} [DecidableEq α] (items : List α) :
    items.eraseDups.length = items.toFinset.card := by
  rw [← List.toFinset_card_of_nodup (nodup_eraseDups items)]
  congr 1
  ext x
  rw [List.mem_toFinset, List.mem_toFinset, List.mem_eraseDups]

/-- Where an item stands among those kept of a list: behind as many as there are different items
before its first occurrence. -/
theorem findIdx?_eraseDups {α : Type} [DecidableEq α] (items : List α) (x : α) :
    items.eraseDups.findIdx? (· == x)
      = if x ∈ items then some (items.takeWhile (· != x)).toFinset.card else none := by
  -- The last item is kept only behind those before it.
  induction items using List.reverseRecOn with
  | nil => rfl
  | append_singleton items last ih =>
    have hkept : (items ++ [last]).eraseDups.findIdx? (· == x)
        = (items.eraseDups.findIdx? (· == x)).or
          (if last ∉ items ∧ last = x then some items.eraseDups.length else none) := by
      rw [eraseDups_concat]
      by_cases hlast : last ∈ items
      · simp [hlast]
      · rw [if_neg (mt List.mem_eraseDups.mp hlast), List.findIdx?_append]
        by_cases hx : last = x
        · rw [if_pos ⟨hlast, hx⟩]
          simp [hx]
        · simp [hx]
    rw [hkept, ih]
    by_cases hx : x ∈ items
    · have hcut : (items ++ [last]).takeWhile (· != x) = items.takeWhile (· != x) := by
        rw [List.takeWhile_append, if_neg]
        intro hall
        have hwhole := (List.takeWhile_sublist (· != x)).eq_of_length hall
        have hne := List.mem_takeWhile_imp (hwhole.symm ▸ hx)
        simp at hne
      rw [if_pos hx, if_pos (List.mem_append_left _ hx), hcut, Option.some_or]
    · have hbefore : items.takeWhile (· != x) = items :=
        List.takeWhile_eq_self_iff.mpr fun y hy => bne_iff_ne.mpr (ne_of_mem_of_not_mem hy hx)
      rw [if_neg hx, Option.none_or]
      by_cases hlast : last = x
      · subst hlast
        have hwhole : (items ++ [last]).takeWhile (· != last) = items := by
          rw [List.takeWhile_append, if_pos (congrArg List.length hbefore)]
          simp
        rw [if_pos ⟨hx, rfl⟩, if_pos List.mem_concat_self, hwhole, length_eraseDups]
      · have hnone : x ∉ items ++ [last] := by simp [hx, Ne.symm hlast]
        rw [if_neg (fun h => hlast h.2), if_neg hnone]

/-- **The place of an operation**, by the ids that are listed. -/
theorem position_distinctIds (ids : List Scalar) (id : Option String) :
    position (distinctIds ids) id = placeOf ids id := by
  have hindex : (distinctIds ids).findIdx? (· == keyOfId id)
      = (ids.map representative).eraseDups.findIdx? (· == representative (keyOfId id)) := by
    rw [← map_representative_distinctIds, List.findIdx?_map]
    simp only [Function.comp_def, beq_representative]
  have hmem : representative (keyOfId id) ∈ ids.map representative
      ↔ ids.any (· == keyOfId id) = true := by
    simp only [List.mem_map, List.any_eq_true, ← beq_representative, beq_iff_eq]
  -- What stands before the id stands before its representative.
  have hcut : (ids.map representative).takeWhile (· != representative (keyOfId id))
      = (ids.takeWhile (· != keyOfId id)).map representative := by
    rw [List.takeWhile_map]
    simp only [Function.comp_def, bne, beq_representative]
  rw [position, placeOf, hindex, findIdx?_eraseDups, hcut]
  by_cases h : ids.any (· == keyOfId id) = true
  · rw [if_pos (hmem.mpr h), if_pos h]
  · rw [if_neg (mt hmem.mp h), if_neg h]

/-! ## Sorting

Operations are sorted by their places, and the sort is stable. With their numbers put to them, that
is one order of which all operations are different. -/

/-- Whether one of two numbered operations comes before the other: by its place, and of those at one
place by its number. -/
def ComesBefore (place : Endpoint → Int) (a b : Endpoint × Nat) : Prop :=
  place a.1 < place b.1 ∨ place a.1 = place b.1 ∧ a.2 < b.2

/-- The operations of a list in the order of their places. With the numbers that they have in the
list, one stands before another one exactly if it comes before it. -/
structure InOrder (place : Endpoint → Int) (endpoints shown : List Endpoint) : Prop where
  perm : shown.Perm endpoints
  stable : ∃ numbered : List (Endpoint × Nat),
    numbered.Perm endpoints.zipIdx ∧ numbered.map (·.1) = shown
      ∧ ∀ i j, (hi : i < numbered.length) → (hj : j < numbered.length) →
        (i < j ↔ ComesBefore place numbered[i] numbered[j])

/-- In a list where what stands before comes before, what comes before stands before. -/
theorem getElem_lt_iff {place : Endpoint → Int} {numbered : List (Endpoint × Nat)}
    (h : numbered.Pairwise (ComesBefore place)) {i j : Nat} (hi : i < numbered.length)
    (hj : j < numbered.length) : i < j ↔ ComesBefore place numbered[i] numbered[j] := by
  have hbefore := List.pairwise_iff_getElem.mp h
  refine ⟨hbefore i j hi hj, fun hcomes => ?_⟩
  rcases Nat.lt_trichotomy i j with hlt | rfl | hgt
  · exact hlt
  · rcases hcomes with hplace | ⟨-, hnumber⟩
    · exact absurd hplace (lt_irrefl _)
    · exact absurd hnumber (lt_irrefl _)
  · have hother := hbefore j i hj hi hgt
    unfold ComesBefore at hcomes hother
    omega

/-- What comparing by place and then by number gives. Two operations never have one number. -/
theorem comesBefore_of_zipIdxLE {place : Endpoint → Int} {a b : Endpoint × Nat}
    (h : List.zipIdxLE (fun a b => decide (place a ≤ place b)) a b = true) (hne : a.2 ≠ b.2) :
    ComesBefore place a b := by
  rw [List.zipIdxLE] at h
  simp only [decide_eq_true_eq] at h
  unfold ComesBefore
  split at h
  · split at h
    · have hnumber := of_decide_eq_true h
      omega
    · omega
  · cases h

/-- **Stable sorting** by the places of operations. -/
theorem mergeSort_inOrder (place : Endpoint → Int) (endpoints : List Endpoint) :
    InOrder place endpoints (endpoints.mergeSort fun a b => decide (place a ≤ place b)) := by
  set le : Endpoint → Endpoint → Bool := fun a b => decide (place a ≤ place b)
  set numbered := endpoints.zipIdx.mergeSort (List.zipIdxLE le)
  have hperm : numbered.Perm endpoints.zipIdx := List.mergeSort_perm _ _
  have htrans : ∀ a b c, le a b = true → le b c = true → le a c = true := fun a b c hab hbc =>
    decide_eq_true ((of_decide_eq_true hab).trans (of_decide_eq_true hbc))
  have htotal : ∀ a b, (le a b || le b a) = true := fun a b => by
    simpa [le] using le_total (place a) (place b)
  have hsorted : numbered.Pairwise fun a b => List.zipIdxLE le a b = true :=
    List.pairwise_mergeSort (List.zipIdxLE_trans htrans) (List.zipIdxLE_total htotal) _
  -- No two operations have one number, so of two the one that is not after the other comes before
  -- it.
  have hnumbers : numbered.Pairwise fun a b => a.2 ≠ b.2 := by
    have hnodup : (numbered.map Prod.snd).Nodup := by
      rw [(hperm.map Prod.snd).nodup_iff, List.zipIdx_map_snd]
      exact List.nodup_range'
    exact List.pairwise_map.mp hnodup
  have hcomes : numbered.Pairwise (ComesBefore place) :=
    hsorted.imp₂ (fun _ _ hle hne => comesBefore_of_zipIdxLE hle hne) hnumbers
  exact ⟨List.mergeSort_perm endpoints le, numbered, hperm, List.mergeSort_zipIdx,
    fun i j hi hj => getElem_lt_iff hcomes hi hj⟩

/-- **Operations are shown in the order of their places.** Nothing but the groups can fail. -/
theorem inDisplayOrder_inOrder {groups : List Members} {ids : List Scalar}
    (h : itemIds groups = .ok ids) (endpoints : List Endpoint) :
    ∃ shown, inDisplayOrder groups endpoints = .ok shown
      ∧ InOrder (fun e => placeOf ids e.id) endpoints shown := by
  have hlisted : listedIds groups = .ok (distinctIds ids) := by rw [listedIds_eq, h]; rfl
  refine ⟨sortByPosition (distinctIds ids) endpoints, ?_, ?_⟩
  · rw [inDisplayOrder, hlisted]
    rfl
  · have hsorted := mergeSort_inOrder (fun e => placeOf ids e.id) endpoints
    simpa only [sortByPosition, position_distinctIds] using hsorted

/-- Operations that are shown are in the order of the ids of some groups. -/
theorem exists_itemIds {groups : List Members} {endpoints shown : List Endpoint}
    (h : inDisplayOrder groups endpoints = .ok shown) : ∃ ids, itemIds groups = .ok ids
      ∧ InOrder (fun e => placeOf ids e.id) endpoints shown := by
  have h' := h
  unfold inDisplayOrder at h'
  obtain ⟨listed, hlisted, -⟩ := Outcome.bind_eq_ok.mp h'
  rw [listedIds_eq] at hlisted
  cases hids : itemIds groups with
  | error failure =>
    rw [hids] at hlisted
    cases hlisted
  | ok ids =>
    obtain ⟨found, hfound, horder⟩ := inDisplayOrder_inOrder hids endpoints
    cases hfound.symm.trans h
    exact ⟨ids, rfl, horder⟩

/-! ## Resources

A resource at the top is made by the first insertion that goes below it, and no later one moves it.
-/

/-- A resource or a method is inserted, so there is something in the tree. -/
theorem isVacant_of_insertMethod {key : String} {method tree result : Value}
    {segments : List String} (h : insertMethod key method segments tree = (result, none)) :
    result.isVacant = false := by
  have hput : ∀ (m : Members) name v, (Value.obj (Entries.put m name v)).isVacant = false := by
    intro m name v
    cases m with
    | nil => rfl
    | cons entry rest =>
      rw [Entries.put]
      split <;> rfl
  cases tree with
  | obj resource =>
    -- At the resource itself the method is put, on the way a resource is.
    cases segments with
    | nil =>
      obtain ⟨members, parameters, moved, -, -, -, rfl⟩ := insertHere_eq_none h
      exact hput _ _ _
    | cons segment segments =>
      obtain ⟨rfl, -⟩ := Prod.mk.inj h
      exact hput _ _ _
  | null | bool | int | float | str | list => cases segments <;> cases h

/-- The resource at the top that an insertion leads to. -/
def topKey? (segments : List String) : Option String := segments.head?.map resourceKey

/-- **The top of a tree**: a resource for each first segment, where it first occurs, and there is
something in each of them. -/
theorem keys_insertAll {insertions : List Insertion} {tree : Members}
    (h : insertAll (.obj []) insertions = .ok (.obj tree))
    (hsegments : ∀ i ∈ insertions, i.segments ≠ []) :
    Entries.keys tree = (insertions.filterMap fun i => topKey? i.segments).eraseDups
      ∧ ∀ member ∈ tree, isResource member = true ∧ member.2.isVacant = false := by
  induction insertions using List.reverseRecOn generalizing tree with
  | nil =>
    cases h
    exact ⟨rfl, nofun⟩
  | append_singleton insertions i ih =>
    rw [insertAll, List.foldlM_append] at h
    obtain ⟨middle, hmiddle, hlast⟩ := Outcome.bind_eq_ok.mp h
    obtain ⟨before, rfl, -⟩ := insertAll_top hmiddle
    obtain ⟨hkeys, hmembers⟩ := ih hmiddle fun j hj => hsegments j (List.mem_append_left _ hj)
    obtain ⟨segment, segments, hi⟩ := List.exists_cons_of_ne_nil
      (hsegments i List.mem_concat_self)
    obtain ⟨next, hinsert, hnext⟩ := insertAll_cons_eq_ok.mp hlast
    cases hnext
    rw [hi, insertMethod] at hinsert
    obtain ⟨htree, hchild⟩ := Prod.mk.inj hinsert
    cases htree
    constructor
    · -- The resource of the last insertion is new at the end, or it stands where it stood.
      have htop : [i].filterMap (fun j => topKey? j.segments) = [resourceKey segment] := by
        rw [List.filterMap_cons, hi]
        rfl
      rw [Entries.keys_put, List.filterMap_append, htop, eraseDups_concat, ← hkeys]
      simp only [Entries.has_iff]
    · intro member hmember
      rcases Entries.mem_put hmember with rfl | hbefore
      · exact ⟨startsWith_resourceKey segment, isVacant_of_insertMethod (Prod.ext rfl hchild)⟩
      · exact hmembers member hbefore

/-- The insertions of operations lead to the resources of their paths. -/
theorem map_segments_of_inserts {version : Version} {project : Project} {mediaType : Value}
    {ordered : List Endpoint} {insertions : List Insertion}
    (h : List.Forall₂ (Inserts version project mediaType) ordered insertions) :
    insertions.map (·.segments) = ordered.map fun e => segmentsOf e.request.path := by
  induction h with
  | nil => rfl
  | cons hfirst _ ih => rw [List.map_cons, List.map_cons, ih, hfirst.segments]

/-- **The resources at the top of a definition**: one for each first segment of a path, in the order
in which the operations mention them. -/
theorem DefinitionParts.keys_resources {version : Version} {project : Project} {data : Members}
    {mediaType : Value} {ordered : List Endpoint} {insertions : List Insertion}
    {head tree : Members}
    (h : DefinitionParts version project data mediaType ordered insertions head tree)
    (hpaths : ∀ e ∈ project.endpoints, '/' ∈ e.request.path.toList) :
    Entries.keys (data.filter isResource)
      = (ordered.filterMap fun e => topKey? (segmentsOf e.request.path)).eraseDups := by
  have hsegments : ∀ i ∈ insertions, i.segments ≠ [] := by
    intro i hi
    obtain ⟨e, he, hinserts⟩ := h.exists_endpoint hi
    rw [hinserts.segments]
    exact segmentsOf_ne_nil (hpaths e he)
  obtain ⟨hkeys, hmembers⟩ := keys_insertAll h.built hsegments
  have hresources : tree.filter isResource = tree :=
    List.filter_eq_self.mpr fun member hmember => (hmembers member hmember).1
  -- A resource has its name, so none is dropped as empty.
  have hfull : tree.filter (fun member => !member.2.isVacant) = tree :=
    List.filter_eq_self.mpr fun member hmember => by rw [(hmembers member hmember).2]; rfl
  have hsame := congrArg (List.filterMap topKey?) (map_segments_of_inserts h.inserts)
  rw [List.filterMap_map, List.filterMap_map] at hsame
  rw [h.toMadeOf.resources, hresources, hfull, hkeys]
  exact congrArg List.eraseDups hsame

/-- **The order in which things are shown.**

* If the display groups of an API can be read, its operations are shown in the order of their
  places, those of one place in the order in which they stand in the project.
* A definition of a project in which every path has a slash has the resources at its top in the
  order in which these operations first mention them, in either version. -/
theorem operations_inOrder :
    (∀ (groups : List Members) (ids : List Scalar) (endpoints : List Endpoint),
      itemIds groups = .ok ids → ∃ shown, inDisplayOrder groups endpoints = .ok shown
        ∧ InOrder (fun e => placeOf ids e.id) endpoints shown)
    ∧ ∀ (version : Version) (project : Project) (data : Members),
      definition version project = .ok data →
      (∀ e ∈ project.endpoints, '/' ∈ e.request.path.toList) →
      ∃ ids shown, itemIds project.environment.resourcesOrder.docs = .ok ids
        ∧ inDisplayOrder project.environment.resourcesOrder.docs project.endpoints = .ok shown
        ∧ InOrder (fun e => placeOf ids e.id) project.endpoints shown
        ∧ Entries.keys (data.filter isResource)
          = (shown.filterMap fun e => topKey? (segmentsOf e.request.path)).eraseDups := by
  refine ⟨fun groups ids endpoints h => inDisplayOrder_inOrder h endpoints, ?_⟩
  intro version project data hdefinition hpaths
  obtain ⟨mediaType, ordered, insertions, head, tree, hparts⟩ := definitionParts hdefinition
  obtain ⟨ids, hids, horder⟩ := exists_itemIds hparts.shown
  exact ⟨ids, ordered, hids, hparts.shown, horder, hparts.keys_resources hpaths⟩

def listing (id : Value) : Value := .obj [("type", .str "endpoints"), ("_id", id)]

/-- Groups that list an operation twice, one without an id, a text, and a number in two ways. -/
def clinicGroups : List Members :=
  [[("items", .list [listing (.str "b"), .obj [("type", .str "texts"), ("_id", .str "a")],
      listing (.int 1), listing (.str "b")])],
    [("name", .str "no items")],
    [("items", .list [.obj [("type", .str "endpoints")], listing (.bool true),
      listing (.str "a")])]]

def reading (id : Option String) (path : String) : Endpoint :=
  { id, request := { path, method := "get" } }

def clinicProject : Project where
  environment := { resourcesOrder := { docs := clinicGroups } }
  endpoints := [reading (some "a") "/pets", reading none "/owners/all",
    reading (some "b") "/pets/new", reading (some "c") "/visits"]

/-- The operations of the clinic as they are shown. -/
def clinicShown : List Endpoint :=
  [reading (some "c") "/visits", reading (some "b") "/pets/new", reading none "/owners/all",
    reading (some "a") "/pets"]

/-- The order of the operations, by sorting their places. -/
theorem inDisplayOrder_clinic :
    inDisplayOrder clinicGroups clinicProject.endpoints = .ok clinicShown := by
  have hlisted : listedIds clinicGroups = .ok [.str "b", .int 1, .null, .str "a"] := rfl
  have hplaces : position [.str "b", .int 1, .null, .str "a"] (some "a") = 3
      ∧ position [.str "b", .int 1, .null, .str "a"] none = 2
      ∧ position [.str "b", .int 1, .null, .str "a"] (some "b") = 0
      ∧ position [.str "b", .int 1, .null, .str "a"] (some "c") = -1 := by decide
  obtain ⟨hpets, howners, hnew, hvisits⟩ := hplaces
  rw [inDisplayOrder, hlisted]
  show Except.ok (sortByPosition _ _) = _
  simp [sortByPosition, clinicProject, clinicShown, List.mergeSort, reading, hpets, howners,
    hnew, hvisits]

/-- The visits are not listed and come first. The pets stand where the first of their operations
stands, and the owners behind two different ids. -/
theorem operations_inOrder_clinic :
    ∃ data ids, definition .v08 clinicProject = .ok data
      ∧ itemIds clinicGroups = .ok ids
      ∧ clinicShown.map (placeOf ids ·.id) = [-1, 0, 2, 3]
      ∧ InOrder (fun e => placeOf ids e.id) clinicProject.endpoints clinicShown
      ∧ Entries.keys (data.filter isResource) = ["/visits", "/pets", "/owners"] := by
  -- The order is known, so the rest of the definition is computation.
  have hdefinition : ∃ data, definition .v08 clinicProject = .ok data := by
    refine Outcome.exists_of_isSome ?_
    unfold definition content resources
    rw [show inDisplayOrder clinicProject.environment.resourcesOrder.docs clinicProject.endpoints
      = .ok clinicShown from inDisplayOrder_clinic]
    decide +kernel
  obtain ⟨data, hdefinition⟩ := hdefinition
  have hpaths : ∀ e ∈ clinicProject.endpoints, '/' ∈ e.request.path.toList := by
    simp [clinicProject, reading]
  have hids : itemIds clinicGroups
      = .ok [.str "b", .int 1, .str "b", .null, .bool true, .str "a"] := rfl
  obtain ⟨found, hfound, horder⟩ := operations_inOrder.1 _ _ clinicProject.endpoints hids
  obtain ⟨_, shown, -, hshown, -, hkeys⟩ :=
    operations_inOrder.2 .v08 clinicProject data hdefinition hpaths
  cases hfound.symm.trans inDisplayOrder_clinic
  cases hshown.symm.trans inDisplayOrder_clinic
  exact ⟨data, _, hdefinition, hids, by decide +kernel, horder, hkeys.trans (by decide +kernel)⟩

end Ramlify.Raml
