import Ramlify.Raml.Security
import Ramlify.Raml.Trait

/-!
# Methods

The declaration of an operation, which stands under its method at the resource of its path.
-/

namespace Ramlify.Raml

def ramlProtocols : List String := ["http", "https"]

/-- The protocols of RAML among some, in capitals. -/
def protocolNames (protocols : List String) : List String :=
  (protocols.filter fun name => name.map Char.toLower ∈ ramlProtocols).map (·.map Char.toUpper)

/-- The protocols of RAML among the items of a value. -/
def protocolNamesOf (protocols : Value) : Outcome (List String) := do
  if protocols.isVacant then return []
  let names ← (← protocols.elements).mapM fun item => do return String.ofList (← item.letters)
  return protocolNames names

/-- Writes an annotation, unless there is nothing in its value. -/
def annotateGiven (target : Members) (kind : String) (v : Value) : Pass Members :=
  if v.isVacant then return target else annotate target kind v

/-- A page that documents an operation. -/
def operationDocs (docs : ExternalDocs) : Members :=
  (docs.description.map fun text => ("description", Value.str text)).toList ++
    [("url", .str docs.url)]

/-- What introduces an operation: its names, its protocols and its traits. -/
def introduction (version : Version) (traits : List Trait) (e : Endpoint) : Pass Members := do
  let m ← annotateAll [] e.extensions
  let m := version.addDisplayName m (.str (textOr e.name e.operationId))
  let m := Members.putGiven m "description" (.str e.description)
  let m ← annotateGiven m "summary" (.str e.summary)
  let m := Members.putGiven m "protocols" (Value.texts (protocolNames e.protocols))
  return Members.putGiven m "is" (Value.texts (traitNames traits e.traits))

/-- The body of the requests of an operation. -/
def operationBody (version : Version) (mediaType : Value) (e : Endpoint) :
    Outcome (Option Value) :=
  if e.request.method ∈ bodiedMethods then
    requestBody version e.request.body (mediaTypeFor e.consumes mediaType)
  else .ok none

def operationResponses (version : Version) (mediaType : Value) (e : Endpoint) :
    Pass Members := do
  let responses ← (responsesByCode version (mediaTypeFor e.produces mediaType) e.responses :
    Outcome Members)
  if responses.isEmpty then return []
  annotateAll responses e.responseExtensions

/-- Adds what is sent and what is answered. -/
def addExchange (version : Version) (mediaType : Value) (e : Endpoint) (m : Members) :
    Pass Members := do
  let body ← operationBody version mediaType e
  let m := Members.putGiven m "body" (body.getD .null)
  let headers ← namedParameters (← e.request.read .headers)
  let m := Members.putGiven m "headers" (headers.getD .null)
  let responses ← operationResponses version mediaType e
  let m := Members.putGiven m "responses" (.obj responses)
  let query ← addressParameters (← e.request.read .query)
  let m := Members.putGiven m "queryParameters" (query.getD .null)
  let path ← addressParameters (← e.request.read .pathParams)
  return Members.putGiven m "uriParameters" (path.getD .null)

/-- Adds the annotations that close the declaration of an operation. -/
def addClosing (e : Endpoint) (m : Members) : Pass Members := do
  let m ← annotateGiven m "tags" (Value.texts e.tags)
  let m ← annotateGiven m "deprecated" (.bool e.deprecated)
  match e.externalDocs with
  | none => return m
  | some docs => annotate m "externalDocs" (.obj (operationDocs docs))

def methodOf (version : Version) (project : Project) (mediaType : Value) (e : Endpoint) :
    Pass Members := do
  let m ← introduction version project.traits e
  let m ← addExchange version mediaType e m
  let secured := (e.securedBy.map fun required =>
    securedBy required project.environment.securitySchemes).getD []
  addClosing e (Members.putGiven m "securedBy" (.list secured))

end Ramlify.Raml
