import Mathlib.Data.List.Forall2
import Ramlify.Proofs.Postman.SavedRequest
import Ramlify.Proofs.PreservedParameters

/-!
# Ramlify — what a collection is imported as

A collection is imported twice over: each of its requests is saved, and the requests of one path
and method become one operation. Requests of one operation may have any others between them.

* **`routes_operationsOf`** — the operations are those of the distinct paths and methods, in the
  order in which these first occur.
* **`merges_merged`** — what an operation has of all its requests, and what of the first one.
* **`import_saves_and_merges`** — the saved requests and the operations of an imported text.
-/

namespace Ramlify

/-- The path and the method of an operation. -/
def Endpoint.route (e : Endpoint) : String × String := (e.request.path, e.request.method)

/-- The path and the method that a request asks for. -/
def Postman.routeOf (m : Members) : String × String := (pathOf m, Unicode.lower (givenMethod m))

namespace Importer

open Postman

/-- The requests of the collection that a text holds. -/
def requests (importer : Importer) (text : String) : List Members :=
  requestsIn (importer.load (.str text)).1.data

/-- A text of a collection that consists of requests. -/
theorem imports_collectionOf {name : String} {requests : List Members} {saved : List SavedEntry}
    (hstorable : Json.Storable (collectionOf name requests))
    (hsettled : Json.settled (collectionOf name requests) = collectionOf name requests)
    (hoperations : (requests.map Value.obj).mapM operationOf
      = .ok ((requests.map operation).map Operation.endpoint))
    (hsaved : (requests.map Value.obj).mapM savedEntryOf = .ok saved) (importer : Importer) :
    importer.Imports (Json.stored (collectionOf name requests))
        (imported name "" (operationsOf requests) saved [])
      ∧ importer.requests (Json.stored (collectionOf name requests)) = requests := by
  have hparse : Json.parse (Json.stored (collectionOf name requests))
      = .ok (collectionOf name requests) := by
    rw [Json.parse_stored hstorable (by rintro ⟨⟩), hsettled]
  refine ⟨imports_of_parse hparse (project_collectionOf hoperations hsaved) importer, ?_⟩
  rw [Importer.requests, load_eq hparse, requestsIn_collectionOf]

end Importer

namespace Postman

/-! ## Saved requests

A saved request is read from one request alone, with nothing of the requests around it. -/

/-- A saved request says what its request says. -/
theorem saves_of_savedEntryOf {m : Members} {entry : SavedEntry}
    (h : savedEntryOf (.obj m) = .ok entry) : Saves m entry := by
  rw [(savedEntryOf_eq_ok h).2]
  exact saves_savedRequest m

/-- Each request is saved, one after another. -/
theorem forall₂_saves {requests : List Members} {saved : List SavedEntry}
    (h : (requests.map Value.obj).mapM savedEntryOf = .ok saved) :
    List.Forall₂ Saves requests saved := by
  induction requests generalizing saved with
  | nil =>
    cases h
    exact .nil
  | cons m requests ih =>
    rw [List.map_cons, List.mapM_cons] at h
    obtain ⟨entry, hentry, h⟩ := Outcome.bind_eq_ok.mp h
    obtain ⟨rest, hrest, h⟩ := Outcome.bind_eq_ok.mp h
    cases h
    exact .cons (saves_of_savedEntryOf hentry) (ih hrest)

/-! ## Operations

Requests of one path and method are merged in one operation. Its route is the route of each of them,
so the operations are counted by the distinct routes. -/

/-- A group of operations with one path and method becomes an operation with these. -/
theorem route_mergedGroup? {route : String × String} {operations : List Operation}
    (h : ∃ o ∈ operations, (o.path, o.method) = route) :
    (mergedGroup? (operations.filter fun o => (o.path, o.method) == route)).map
      (fun o => (o.path, o.method)) = some route := by
  cases hgroup : operations.filter fun o => (o.path, o.method) == route with
  | nil =>
    obtain ⟨o, ho, hroute⟩ := h
    exact absurd (beq_iff_eq.mpr hroute) (List.filter_eq_nil_iff.mp hgroup o ho)
  | cons first more =>
    have hfirst : first ∈ operations.filter fun o => (o.path, o.method) == route := by
      rw [hgroup]
      exact List.mem_cons_self
    exact congrArg some (beq_iff_eq.mp (List.mem_filter.mp hfirst).2)

/-- **The operations of some requests**: one for each path and method, where these first occur. -/
theorem routes_operationsOf (requests : List Members) :
    (operationsOf requests).map (fun o => (o.path, o.method))
      = (requests.map routeOf).eraseDups := by
  have hroutes : (requests.map operation).map (fun o => (o.path, o.method))
      = requests.map routeOf := by
    rw [List.map_map]
    rfl
  rw [operationsOf, groupBy_eq, List.filterMap_map, List.map_filterMap, hroutes]
  -- Every route is that of an operation, so no group is empty.
  have hgroups : ∀ route ∈ (requests.map routeOf).eraseDups,
      ((mergedGroup? ((requests.map operation).filter fun o => (o.path, o.method) == route)).map
        fun o => (o.path, o.method)) = some route := by
    intro route hroute
    obtain ⟨m, hm, rfl⟩ := List.mem_map.mp (List.mem_eraseDups.mp hroute)
    exact route_mergedGroup? ⟨operation m, List.mem_map_of_mem hm, rfl⟩
  exact (List.filterMap_congr hgroups).trans List.filterMap_some

/-- Requests of distinct paths and methods are not merged. -/
theorem operationsOf_of_nodup {requests : List Members} (h : (requests.map routeOf).Nodup) :
    operationsOf requests = requests.map operation := by
  have hroutes : ((requests.map operation).map fun o => (o.path, o.method)).Nodup := by
    rw [List.map_map]
    exact h
  rw [operationsOf, groupBy_of_nodup hroutes, List.map_map, List.filterMap_map]
  have halone : ∀ m ∈ requests, mergedGroup? [operation m] = some (operation m) :=
    fun m _ => congrArg some (merged_alone (operation_tidy m))
  exact (List.filterMap_congr halone).trans (congrFun List.filterMap_eq_map requests)

end Postman

namespace Raml

open Postman

/-- An operation for a request and more of its path and method: headers and query of all of them,
everything else of the first, but named by the path if there are more. -/
structure Merges (first : Members) (more : List Members) (e : Endpoint) : Prop
    extends MergesParameters (first :: more) e where
  id : e.id = idOf first
  name : e.name = if more.isEmpty then String.ofList (lettersOf (Members.find first "name"))
    else pathOf first
  pathParams : e.request.read .pathParams
    = .ok (objectSchema (Entries.latest (variablesIn first)))
  body : Json.parseStored (Members.find e.request.body "body")
    = .ok (objectSchema (Entries.latest (fieldsIn first)))
  consumes : e.consumes = mediaTypes (Members.find first "dataMode")
  before : e.before = Members.find first "preRequestScript"

/-- Merging an operation with more of its route gives an endpoint for all of them; that the merged
headers and queries are tidy is what makes them readable again. -/
theorem merges_merged {first : Members} {more : List Members}
    (h : (merged (operation first) (more.map operation)).Tidy) :
    Merges first more (merged (operation first) (more.map operation)).endpoint where
  toMergesParameters := mergesParameters_merged h
  id := rfl
  name := by
    show (if (more.map operation).isEmpty then _ else _) = _
    rw [List.isEmpty_map]
    rfl
  pathParams := by
    rw [Operation.read_pathParams h, ← Entries.ofList_eq_latest]
    rfl
  body := by
    rw [Operation.parse_body h, ← Entries.ofList_eq_latest]
    rfl
  consumes := rfl
  before := rfl

/-- **What a text of a collection is imported as.** Each request is saved with what it says. The
operations are those of the distinct paths and methods, where these first occur, and each is merged
from all requests of its path and method. -/
theorem import_saves_and_merges {importer : Importer} {text : String} {p : Project}
    (h : importer.Imports text p) :
    List.Forall₂ Saves (importer.requests text) p.savedEntries
      ∧ p.endpoints.map Endpoint.route = ((importer.requests text).map routeOf).eraseDups
      ∧ (p.endpoints.map Endpoint.route).Nodup
      ∧ ∀ e ∈ p.endpoints, ∃ first more,
          (importer.requests text).filter (routeOf · == e.route) = first :: more
            ∧ Merges first more e := by
  unfold Importer.requests
  obtain ⟨name, description, saved, groups, rfl, hsaved⟩ := project_saved h.collection
  -- Only the routes of the operations matter for the second and the third part, and an endpoint has
  -- the route of its operation.
  have hroutes : (imported name description
      (operationsOf (requestsIn (importer.load (.str text)).1.data)) saved groups).endpoints.map
        Endpoint.route
      = ((requestsIn (importer.load (.str text)).1.data).map routeOf).eraseDups := by
    rw [← routes_operationsOf]
    exact List.map_map ..
  refine ⟨forall₂_saves hsaved, hroutes, ?_, ?_⟩
  · rw [hroutes]
    exact nodup_eraseDups _
  · intro e he
    obtain ⟨o, ho, rfl⟩ := List.mem_map.mp he
    -- Each operation comes from the requests of its route, in the order of the collection.
    obtain ⟨first, more, hsources, hmerged⟩ := exists_sources ho
    have htidy := operationsOf_tidy o ho
    refine ⟨first, more, hsources, ?_⟩
    rw [hmerged] at htidy ⊢
    exact merges_merged htidy

/-! ### Requests with another one between them

Requests of one operation need not stand next to each other. -/

/-- Two requests of one path and method. -/
def listingRequest : Members :=
  [("name", .str "List"), ("url", .str "/pets"), ("headers", .str "Accept: a\nX-Trace: 1")]

def listingAgain : Members :=
  [("name", .str "List again"), ("url", .str "/pets"), ("method", .str "GET"),
   ("headers", .str "X-Page: 2\nAccept: b")]

/-- Requests with one of another method between those of one operation. -/
def interleavedRequests : List Members :=
  [listingRequest, [("name", .str "Add"), ("url", .str "/pets"), ("method", .str "POST")],
   listingAgain]

set_option maxRecDepth 100000 in
/-- Three requests are saved, and there are two operations: the first one has the headers of the
first and of the last request. -/
theorem import_saves_and_merges_interleaved :
    ∃ p, Importer.Imports {} (Json.stored (collectionOf "Interleaved" interleavedRequests)) p
      ∧ p.savedEntries.length = 3
      ∧ p.endpoints.map Endpoint.route = [("/pets", "get"), ("/pets", "post")]
      ∧ ∃ e ∈ p.endpoints, e.name = "/pets" ∧ e.request.read .headers = .ok (objectSchema
          [("Accept", textProperty (.str "b")), ("X-Trace", textProperty (.str "1")),
           ("X-Page", textProperty (.str "2"))]) := by
  have hstorable : Json.Storable (collectionOf "Interleaved" interleavedRequests) := by
    simp [collectionOf, interleavedRequests, listingRequest, listingAgain, Json.Storable,
      Json.StorableItems, Json.StorableMembers]
  obtain ⟨saved, hsaved⟩ : ∃ saved,
      (interleavedRequests.map Value.obj).mapM savedEntryOf = .ok saved := ⟨_, rfl⟩
  obtain ⟨himports, hrequests⟩ := Importer.imports_collectionOf hstorable rfl rfl hsaved {}
  obtain ⟨hsaved, hroutes, _, hmerges⟩ := import_saves_and_merges himports
  rw [hrequests] at hsaved hroutes hmerges
  -- What is left is computation: the routes of the three requests, and which of them ask for the
  -- first one.
  have hdistinct : (interleavedRequests.map routeOf).eraseDups
      = [("/pets", "get"), ("/pets", "post")] := rfl
  rw [hdistinct] at hroutes
  obtain ⟨e, he, hroute⟩ := List.mem_map.mp (hroutes ▸ List.mem_cons_self)
  obtain ⟨first, more, hsources, hmerged⟩ := hmerges e he
  rw [hroute] at hsources
  have hboth : interleavedRequests.filter (routeOf · == ("/pets", "get"))
      = [listingRequest, listingAgain] := rfl
  obtain ⟨rfl, rfl⟩ := List.cons.inj (hboth.symm.trans hsources)
  exact ⟨_, himports, hsaved.length_eq.symm, hroutes, e, he, hmerged.name, hmerged.headers⟩

end Raml

end Ramlify
