import Ramlify.Grouping
import Ramlify.Model.Project
import Ramlify.Postman.Parameters

/-!
# Collections

A Postman collection of the first version becomes a project. Each request becomes a saved entry with
its literal values, and an operation with schemas; the operations of one path and method are merged
into the first of them. Folders become display groups of the saved entries.
-/

namespace Ramlify.Postman

/-! ## Requests -/

/-- The text under a name, with a default for a missing one. -/
def textMember (m : Members) (name default : String) : Outcome String :=
  match Entries.get? m name with
  | none => .ok default
  | some v => do return String.ofList (← v.letters)

/-- What an operation and a saved entry have in common, up to the method: the name, the query after
the first question mark of the URL, the path before it, and the method. -/
def requestLine (m : Members) : Outcome Entry := do
  let named ← ((fun id name => (id, name)) <$> Shape.field m "id" (Shape.optional Shape.text) none
    <*> Shape.field m "name" Shape.text "").outcome
  let url := (← textMember m "url" "").toList
  let path := String.ofList (bracketChars (Text.firstField '?' url))
  let query := querySchema ((Text.secondField? '?' url).getD [])
  let method ← textMember m "method" "get"
  let request : Request := { path }
  return { id := named.1, name := named.2, request := (request.setQuery query).setMethod method }

/-- The path variables with their defaults. -/
def pathVariables (m : Members) : Outcome Members := do
  let given := Members.find m "pathVariables"
  let members ← if given.isVacant then .ok [] else given.members
  members.mapM fun pair => do return (pair.1, ← defaultOfValue pair.2)

/-- Adds the headers and the media types of a request. -/
def addHeaders (m : Members) (entry : Entry) : Outcome Entry := do
  let headers ← headersOf (Members.find m "headers")
  return { entry with
    request := entry.request.setHeaders headers
    consumes := mediaTypes (Members.find m "dataMode") }

/-- The operation that a request describes. -/
def operationOf (v : Value) : Outcome Endpoint := do
  let m ← v.members
  let entry ← requestLine m
  let given ← pathVariables m
  let schema := objectSchema (given.map fun pair => (pair.1, textProperty pair.2))
  let entry ← addHeaders m { entry with request := entry.request.setPathParams schema }
  let body ← requestBody (Members.find m "data")
  return { entry with
    request := entry.request.appendBody body
    before := Members.find m "preRequestScript" }

/-- The methods of requests that are saved without a body. -/
def bodilessMethods : List String := ["get", "head"]

def savedEntryOf (v : Value) : Outcome SavedEntry := do
  let m ← v.members
  let entry ← requestLine m
  let given ← pathVariables m
  let entry ← addHeaders m { entry with request := entry.request.setPathParams (.obj given) }
  if entry.request.method ∈ bodilessMethods then return entry
  let body ← requestBody (Members.find m "data")
  return { entry with request := entry.request.appendBody body }

/-! ## Merging -/

/-- The properties of several schemas together. The last one of a name counts, at the place of the
first. -/
def joinProperties (schemas : List Value) : Outcome Members :=
  schemas.foldlM (fun merged schema => do
    let properties ← (Members.find (← schema.members) "properties").members
    return Entries.putAll merged properties) []

/-- One operation for several of the same path and method: the first one, with the headers and the
query of all and the path as name. -/
def mergeOperations (first : Endpoint) (more : List Endpoint) : Outcome Endpoint := do
  if more.isEmpty then return first
  let headers ← joinProperties (← (first :: more).mapM fun e => e.request.read .headers)
  let query ← joinProperties (← (first :: more).mapM fun e => e.request.read .query)
  return { first with
    name := first.request.path
    request := (first.request.setHeaders (objectSchema headers)).setQuery (objectSchema query) }

/-- Merges one group. Groups are never empty. -/
def mergeGroup : List Endpoint → Outcome (Option Endpoint)
  | [] => .ok none
  | first :: more => do return some (← mergeOperations first more)

/-- The operations with those of one path and method merged, in the order of the first ones. -/
def mergeAll (operations : List Endpoint) : Outcome (List Endpoint) := do
  let groups := groupBy (fun e : Endpoint => (e.request.path, e.request.method)) operations
  return (← groups.mapM mergeGroup).filterMap id

/-! ## Folders -/

def displayGroup (v : Value) : Outcome Members := do
  let m ← v.members
  let order ← match Entries.get? m "order" with
    | none => .ok []
    | some order => order.elements
  let items := order.map fun id => Value.obj [("type", .str "savedEntries"), ("_id", id)]
  return [("_id", Members.find m "id"), ("name", Members.find m "name"), ("items", .list items)]

/-! ## Collections -/

/-- A value, with the empty text for one that has nothing in it. -/
def orEmptyText (v : Value) : Value := if v.isVacant then .str "" else v

/-- The items of a member. One that has nothing in it has none. -/
def memberElements (m : Members) (name : String) : Outcome (List Value) :=
  let v := Members.find m name
  if v.isVacant then .ok [] else v.elements

/-- The project that a collection describes. -/
def project (collection : Value) : Outcome Project := do
  let m ← match collection with
    | .obj m => .ok m
    | _ => .error .notCollection
  let named ← ((fun name description => (name, description))
    <$> (Shape.text (orEmptyText (Members.find m "name"))).under "name"
    <*> (Shape.text (orEmptyText (Members.find m "description"))).under "description").outcome
  let requests ← memberElements m "requests"
  let operations ← mergeAll (← requests.mapM operationOf)
  let saved ← requests.mapM savedEntryOf
  let folders ← memberElements m "folders"
  let groups ← folders.mapM displayGroup
  return {
    name := named.1
    description := named.2
    endpoints := operations
    savedEntries := saved
    environment := { resourcesOrder := { savedEntries := groups } } }

end Ramlify.Postman
