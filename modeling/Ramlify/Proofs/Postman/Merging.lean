import Ramlify.Proofs.Grouping
import Ramlify.Proofs.Postman.Operation

/-!
# Ramlify — what becomes of a collection

The operations of one path and method become one: the first of them, with the headers and the
queries of all, which are read from their texts and stored again.

* **`mergeOperations_eq`** — merging never fails, and it is `merged` without the texts.
* **`exists_sources`** — an operation of a project tells the requests that it was merged from.
* **`project_saved`** — what a collection becomes, if it becomes anything, and what is saved.
-/

namespace Ramlify.Postman

/-! ## Merging

The program merges endpoints, whose parts are stored texts: it reads the texts of all, joins their
properties and stores them again. Because the parts of an imported operation are read as they were
stored, this is the same as joining the parts themselves. -/

/-- One operation for several: the first one, with the headers and the query of all, the last of a
name at the place of the first. -/
def merged (first : Operation) (more : List Operation) : Operation :=
  { first with
    name := if more.isEmpty then first.name else first.path
    headers := Entries.ofList ((first :: more).flatMap (·.headers))
    query := Entries.ofList ((first :: more).flatMap (·.query)) }

/-- Merged operations have tidy parts: each name that several of them have stands once. -/
theorem merged_tidy {first : Operation} {more : List Operation}
    (h : ∀ o ∈ first :: more, o.Tidy) : (merged first more).Tidy := by
  have hfirst := h first List.mem_cons_self
  refine ⟨hfirst.lowered, ?_, Entries.nodup_keys_ofList _, ?_, Entries.nodup_keys_ofList _,
    hfirst.pathParams, hfirst.fields⟩
  · intro name v hv
    obtain ⟨o, ho, hmem⟩ := List.mem_flatMap.mp (Entries.mem_ofList hv)
    exact (h o ho).headers name v hmem
  · intro name v hv
    obtain ⟨o, ho, hmem⟩ := List.mem_flatMap.mp (Entries.mem_ofList hv)
    exact (h o ho).query name v hmem

/-- The properties of several schemas are put one after another. -/
theorem joinProperties_eq (schemas : List Members) :
    joinProperties (schemas.map objectSchema) = .ok (Entries.ofList schemas.flatten) := by
  unfold joinProperties Entries.ofList
  -- What was put before is general in the induction over the schemas.
  generalize ([] : Members) = before
  induction schemas generalizing before with
  | nil => rfl
  | cons properties schemas ih =>
    rw [List.map_cons, List.foldlM_cons, List.flatten_cons, Entries.putAll_append]
    exact ih (Entries.putAll before properties)

/-- A part of several operations, read and joined, is one schema with the properties of all. -/
theorem readAll_eq {part : Request.Part} {properties : Operation → Members}
    {operations : List Operation}
    (hread : ∀ o ∈ operations, o.endpoint.request.read part = .ok (objectSchema (properties o))) :
    (operations.map Operation.endpoint).mapM (fun e : Endpoint => e.request.read part)
      = .ok ((operations.map properties).map objectSchema) := by
  rw [List.mapM_map, List.map_map]
  exact Outcome.mapM_eq_ok hread

theorem merged_alone {first : Operation} (h : first.Tidy) : merged first [] = first := by
  have hheaders : Entries.ofList ([first].flatMap (·.headers)) = first.headers := by
    rw [List.flatMap_singleton, Entries.ofList_of_nodup h.headerNames]
  have hquery : Entries.ofList ([first].flatMap (·.query)) = first.query := by
    rw [List.flatMap_singleton, Entries.ofList_of_nodup h.queryNames]
  rw [merged, hheaders, hquery]
  rfl

/-- Merging endpoints is merging operations. It does not fail, since all the texts it reads were
stored before. -/
theorem mergeOperations_eq {first : Operation} {more : List Operation}
    (h : ∀ o ∈ first :: more, o.Tidy) :
    mergeOperations first.endpoint (more.map (·.endpoint)) = .ok (merged first more).endpoint := by
  -- An operation alone is not read at all, and needs not be: it is merged as it is.
  cases more with
  | nil =>
    rw [merged_alone (h first List.mem_cons_self)]
    rfl
  | cons second more =>
    have hheaders := readAll_eq fun o ho => Operation.read_headers (h o ho)
    have hquery := readAll_eq fun o ho => Operation.read_query (h o ho)
    rw [List.map_cons] at hheaders hquery
    unfold mergeOperations
    rw [if_neg (by simp), hheaders, hquery]
    show (joinProperties _ >>= _) = _
    rw [joinProperties_eq]
    show (joinProperties _ >>= _) = _
    rw [joinProperties_eq, ← List.flatMap_def, ← List.flatMap_def]
    rfl

/-- What the operations of one path and method become. -/
def mergedGroup? : List Operation → Option Operation
  | [] => none
  | first :: more => some (merged first more)

/-- What some requests become: one operation for each path and method, in the order of the first
requests. -/
def operationsOf (requests : List Members) : List Operation :=
  (groupBy (fun o : Operation => (o.path, o.method)) (requests.map operation)).filterMap
    mergedGroup?

/-- All operations of a group come from requests. -/
theorem tidy_of_mem_groupBy {requests : List Members} {group : List Operation}
    (h : group ∈ groupBy (fun o : Operation => (o.path, o.method)) (requests.map operation)) :
    ∀ o ∈ group, o.Tidy := by
  intro o ho
  obtain ⟨_, _, _, hgroup⟩ := exists_of_mem_groupBy h
  rw [hgroup] at ho
  obtain ⟨m, _, rfl⟩ := List.mem_map.mp (List.mem_filter.mp ho).1
  exact operation_tidy m

/-- Every operation of a collection is tidy. -/
theorem operationsOf_tidy {requests : List Members} : ∀ o ∈ operationsOf requests, o.Tidy := by
  intro o ho
  obtain ⟨group, hgroup, hmerged⟩ := List.mem_filterMap.mp ho
  have htidy := tidy_of_mem_groupBy hgroup
  cases group with
  | nil => cases hmerged
  | cons first more =>
    cases hmerged
    exact merged_tidy htidy

/-- The requests of a path and a method. -/
def sourcesOf (requests : List Members) (path method : String) : List Members :=
  requests.filter fun m => pathOf m == path && Unicode.lower (givenMethod m) == method

/-- An operation is what the requests of its path and its method are merged to. -/
theorem exists_sources {requests : List Members} {o : Operation}
    (h : o ∈ operationsOf requests) :
    ∃ first more, sourcesOf requests o.path o.method = first :: more
      ∧ o = merged (operation first) (more.map operation) := by
  obtain ⟨group, hgroup, hmerged⟩ := List.mem_filterMap.mp h
  obtain ⟨head, tail, hcons, hfilter⟩ := exists_of_mem_groupBy hgroup
  rw [hcons] at hmerged
  cases hmerged
  -- The group of the operation was chosen by path and method; the requests are chosen in the same
  -- way.
  have hsources : (sourcesOf requests head.path head.method).map operation = head :: tail := by
    rw [← hcons, hfilter, List.filter_map]
    rfl
  show ∃ first more, sourcesOf requests head.path head.method = first :: more
    ∧ merged head tail = merged (operation first) (more.map operation)
  cases hfound : sourcesOf requests head.path head.method with
  | nil =>
    rw [hfound] at hsources
    cases hsources
  | cons first more =>
    rw [hfound] at hsources
    cases hsources
    exact ⟨first, more, rfl, rfl⟩

theorem mergeAll_eq (requests : List Members) :
    mergeAll ((requests.map operation).map Operation.endpoint)
      = .ok ((operationsOf requests).map Operation.endpoint) := by
  unfold mergeAll operationsOf
  rw [groupBy_map]
  have hgroups : ((groupBy (fun o : Operation => (o.path, o.method))
      (requests.map operation)).map (List.map Operation.endpoint)).mapM mergeGroup
        = .ok (((groupBy (fun o : Operation => (o.path, o.method))
          (requests.map operation)).map fun group =>
            (mergedGroup? group).map Operation.endpoint)) := by
    rw [List.mapM_map]
    refine Outcome.mapM_eq_ok fun group hgroup => ?_
    have htidy := tidy_of_mem_groupBy hgroup
    -- A group is never empty, but the program leaves out an empty one, and so does `mergedGroup?`.
    cases group with
    | nil => rfl
    | cons first more =>
      show (mergeOperations first.endpoint (more.map Operation.endpoint) >>= _) = _
      rw [mergeOperations_eq htidy]
      rfl
  show (List.mapM mergeGroup (List.map (List.map Operation.endpoint)
    (groupBy (fun o : Operation => (o.path, o.method)) (requests.map operation))) >>= _) = _
  rw [hgroups, List.map_filterMap]
  show Except.ok (List.filterMap id _) = _
  rw [List.filterMap_map]
  rfl

/-! ## Collections

A collection is read member by member. What its requests become is known from here on, so that only
name, description and saved requests remain to be told. -/

/-- The requests of a collection. -/
def requestsIn (collection : Value) : List Members :=
  match Members.find (membersOf collection) "requests" with
  | .list requests => requests.map membersOf
  | _ => []

/-- What is no list holds no requests: its elements are texts. -/
theorem map_membersOf_requests {m : Members} {requests : List Value}
    (hrequests : memberElements m "requests" = .ok requests)
    (hobj : ∀ v ∈ requests, v = .obj (membersOf v)) :
    requests.map membersOf = requestsIn (.obj m) := by
  -- The elements of an object or a text are texts, and no text is a request.
  have hnone : ∀ texts : List String, requests = texts.map Value.str → requests = [] := by
    rintro texts rfl
    cases texts with
    | nil => rfl
    | cons text texts => cases hobj _ List.mem_cons_self
  unfold memberElements at hrequests
  dsimp only at hrequests
  unfold requestsIn
  rw [membersOf]
  cases hv : Members.find m "requests" with
  | list items =>
    rw [hv] at hrequests
    split at hrequests
    · next hvacant =>
      cases hrequests
      rw [List.isEmpty_iff.mp hvacant]
    · cases hrequests
      rfl
  | obj members =>
    rw [hv] at hrequests
    split at hrequests
    · cases hrequests
      rfl
    · rw [hnone (Entries.keys members) (Except.ok.inj hrequests).symm]
      rfl
  | str s =>
    rw [hv] at hrequests
    split at hrequests
    · cases hrequests
      rfl
    · rw [hnone (s.toList.map String.singleton)
        ((Except.ok.inj hrequests).symm.trans (List.map_map ..).symm)]
      rfl
  | null | bool | int | float =>
    rw [hv] at hrequests
    split at hrequests
    · cases hrequests
      rfl
    · cases hrequests

/-- A project of some operations, with requests that were saved and the groups they are shown in.
Nothing else is imported. -/
def imported (name description : String) (operations : List Operation) (saved : List SavedEntry)
    (groups : List Members) : Project where
  name := name
  description := description
  endpoints := operations.map Operation.endpoint
  savedEntries := saved
  environment := { resourcesOrder := { savedEntries := groups } }

/-- **What a collection becomes**, if it becomes anything, with what its requests are saved as. -/
theorem project_saved {collection : Value} {p : Project} (h : project collection = .ok p) :
    ∃ name description saved groups,
      p = imported name description (operationsOf (requestsIn collection)) saved groups
        ∧ ((requestsIn collection).map Value.obj).mapM savedEntryOf = .ok saved := by
  unfold project at h
  obtain ⟨m, rfl⟩ : ∃ m, collection = .obj m := by
    cases collection with
    | obj m => exact ⟨m, rfl⟩
    | null | bool | int | float | str | list => cases h
  obtain ⟨_, hm, h⟩ := Outcome.bind_eq_ok.mp h
  cases hm
  obtain ⟨named, _, h⟩ := Outcome.bind_eq_ok.mp h
  obtain ⟨requests, hrequests, h⟩ := Outcome.bind_eq_ok.mp h
  obtain ⟨endpoints, hendpoints, h⟩ := Outcome.bind_eq_ok.mp h
  obtain ⟨operations, hoperations, h⟩ := Outcome.bind_eq_ok.mp h
  obtain ⟨saved, hsaved, h⟩ := Outcome.bind_eq_ok.mp h
  obtain ⟨folders, _, h⟩ := Outcome.bind_eq_ok.mp h
  obtain ⟨groups, _, h⟩ := Outcome.bind_eq_ok.mp h
  -- Every request was imported, so every one is an object.
  have hobj : ∀ v ∈ requests, v = .obj (membersOf v) := by
    intro v hv
    obtain ⟨e, he⟩ := Outcome.exists_of_mapM hendpoints hv
    exact (operationOf_eq_ok he).1
  have hrequested : requests.map membersOf = requestsIn (.obj m) :=
    map_membersOf_requests hrequests hobj
  have hgiven : endpoints = ((requestsIn (.obj m)).map operation).map Operation.endpoint := by
    rw [Outcome.eq_map_of_mapM (fun _ _ he => (operationOf_eq_ok he).2) hendpoints,
      ← hrequested, List.map_map, List.map_map]
    rfl
  rw [hgiven, mergeAll_eq] at hoperations
  cases hoperations
  refine ⟨named.1, named.2, saved, groups, (Except.ok.inj h).symm, ?_⟩
  rw [← hrequested, List.map_map, ← hsaved]
  exact congrArg (List.mapM savedEntryOf)
    ((List.map_congr_left fun v hv => (hobj v hv).symm).trans (List.map_id _))

/-- What a collection becomes, where only its operations matter. -/
theorem project_eq_ok {collection : Value} {p : Project} (h : project collection = .ok p) :
    ∃ name description saved groups,
      p = imported name description (operationsOf (requestsIn collection)) saved groups := by
  obtain ⟨name, description, saved, groups, hp, _⟩ := project_saved h
  exact ⟨name, description, saved, groups, hp⟩

/-- A collection of some requests, with a name and nothing else. -/
def collectionOf (name : String) (requests : List Members) : Value :=
  .obj [("name", .str name), ("requests", .list (requests.map .obj))]

theorem requestsIn_collectionOf (name : String) (requests : List Members) :
    requestsIn (collectionOf name requests) = requests := by
  show (requests.map Value.obj).map membersOf = requests
  rw [List.map_map]
  exact List.map_id _

/-- A collection becomes a project if all its requests are imported and saved. -/
theorem project_collectionOf {name : String} {requests : List Members} {saved : List SavedEntry}
    (hoperations : (requests.map Value.obj).mapM operationOf
      = .ok ((requests.map operation).map Operation.endpoint))
    (hsaved : (requests.map Value.obj).mapM savedEntryOf = .ok saved) :
    project (collectionOf name requests)
      = .ok (imported name "" (operationsOf requests) saved []) := by
  -- An empty name is replaced by an empty name.
  have hnamed : orEmptyText (.str name) = .str name := by
    unfold orEmptyText
    split
    · next hvacant => rw [String.isEmpty_iff.mp hvacant]
    · rfl
  have helements : memberElements [("name", .str name), ("requests", .list (requests.map .obj))]
      "requests" = .ok (requests.map .obj) := by
    cases requests with
    | nil => rfl
    | cons m requests => rfl
  refine Outcome.bind_eq_ok.mpr ⟨_, rfl, ?_⟩
  refine Outcome.bind_eq_ok.mpr ⟨(name, ""), ?_, ?_⟩
  · show ((fun name description => (name, description))
      <$> (Shape.text (orEmptyText (.str name))).under "name" <*> _ : Fit _).outcome = _
    rw [hnamed]
    rfl
  refine Outcome.bind_eq_ok.mpr ⟨_, helements, ?_⟩
  refine Outcome.bind_eq_ok.mpr ⟨_, hoperations, ?_⟩
  refine Outcome.bind_eq_ok.mpr ⟨_, mergeAll_eq _, ?_⟩
  exact Outcome.bind_eq_ok.mpr ⟨saved, hsaved, rfl⟩

end Ramlify.Postman
