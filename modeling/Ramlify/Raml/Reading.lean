import Ramlify.Raml.Definition

/-!
# What a pass leaves in a project

A pass reads the parts of the operations, and a query or path parameters without a text are given
one when they are read. It stays, whatever becomes of the pass: operations are read in the order in
which they are shown, up to the first that cannot be declared or has no place in the tree.
-/

namespace Ramlify.Raml

/-- An operation after one of its parts was read. -/
def afterReading (e : Endpoint) (part : Request.Part) : Endpoint :=
  { e with request := e.request.afterReading part }

/-- What is declared of an operation before its query is read. -/
def declareBeforeQuery (version : Version) (mediaType : Value) (e : Endpoint) : Outcome Unit := do
  let _ ← operationBody version mediaType e
  let _ ← namedParameters (← e.request.read .headers)
  let _ ← responsesByCode version (mediaTypeFor e.produces mediaType) e.responses

/-- The declaration of the query of an operation. -/
def declareQuery (e : Endpoint) : Pass (Option Value) := do
  addressParameters (← e.request.read .query)

/-- An operation after it was declared, or after as much of it as could be. -/
def afterDeclaring (version : Version) (mediaType : Value) (e : Endpoint) : Endpoint :=
  match declareBeforeQuery version mediaType e with
  | .error _ => e
  | .ok () =>
    match (declareQuery e).run {} with
    | .error _ => afterReading e .query
    | .ok _ => afterReading (afterReading e .query) .pathParams

/-- The number of operations that are begun to be added to a tree: all of them, or those up to the
first that fails. -/
def begun (version : Version) (project : Project) (mediaType : Value) :
    Value → Annotations → List Endpoint → Nat
  | _, _, [] => 0
  | tree, written, e :: rest =>
    match (addOperation version project mediaType tree e).run written with
    | .error _ => 1
    | .ok (tree, written) => begun version project mediaType tree written rest + 1

/-- Operations with the numbers of their places in the project, in the order of some ids. -/
def numberedByPosition (ids : List Scalar) (endpoints : List Endpoint) : List (Endpoint × Nat) :=
  endpoints.zipIdx.mergeSort fun a b => decide (position ids a.1.id ≤ position ids b.1.id)

/-- The operations of a project after a pass over them. -/
def endpointsAfter (version : Version) (project : Project) (mediaType : Value)
    (written : Annotations) (ids : List Scalar) : List Endpoint :=
  let shown := numberedByPosition ids project.endpoints
  let count := begun version project mediaType (.obj []) written (shown.map (·.1))
  let numbers := (shown.take count).map (·.2)
  project.endpoints.mapIdx fun number e =>
    if number ∈ numbers then afterDeclaring version mediaType e else e

/-- A project after its definition was built, or after as much of it as could be. -/
def afterBuilding (version : Version) (project : Project) : Project :=
  match (opening version project).run { enabled := version.hasAnnotations } with
  | .error _ => project
  | .ok (head, written) =>
    match listedIds project.environment.resourcesOrder.docs with
    | .error _ => project
    | .ok ids =>
      let mediaType := Members.find head "mediaType"
      { project with endpoints := endpointsAfter version project mediaType written ids }

end Ramlify.Raml
