import Ramlify.Raml.Parameter
import Ramlify.Raml.Version
import Ramlify.Unicode.Digit

/-!
# Bodies

The bodies of requests and responses by media type. A request has a body in JSON or that of a form;
bodies of other media types are left out. The responses of an operation stand under the first code
of each, if that is a number.
-/

namespace Ramlify.Raml

/-! ## Media types -/

/-- The media type to use: the first one given, else the first one of the API. The empty text stands
for none. -/
def mediaTypeFor (types : List String) (general : Value) : String :=
  match types, general with
  | type :: _, _ => type
  | [], .list (.str type :: _) => type
  | [], .str type => type
  | [], _ => ""

/-- The media type to use where values of any type are given. -/
def mediaTypeForValue (types general : Value) : Outcome Value :=
  if !types.isVacant then types.first
  else
    match general with
    | .list (type :: _) => .ok type
    | .str type => .ok (if type.isEmpty then .null else general)
    | _ => .ok .null

def formTypes : List String := ["multipart/form-data", "application/x-www-form-urlencoded"]

/-! ## Requests -/

/-- The methods whose requests have bodies. -/
def bodiedMethods : List String := ["post", "put", "patch"]

/-- What a body entry becomes in some media type, unless that is not supported. -/
def mappedBody (version : Version) (entry : Members) (mediaType : String) :
    Outcome (Option Value) := do
  if mediaType = "application/json" then
    return some (Schema.spreadRequired (← version.body entry))
  else if mediaType ∈ formTypes then
    let schema ← Json.parseStored (Members.find entry "body")
    return some (← version.form (Schema.typed schema))
  else return none

/-- The body of a request by its media type, with the description of the entry. -/
def requestBody (version : Version) (entry : Members) (mediaType : String) :
    Outcome (Option Value) := do
  if (Members.find entry "body").isVacant || mediaType.isEmpty then return none
  let body := (← mappedBody version entry mediaType).getD .null
  if body.isVacant then return none
  let description := Members.find entry "description"
  let body ← if description.isVacant then .ok body else body.put "description" description
  return some (.obj [(mediaType, body)])

/-! ## Responses -/

/-- The code under which a response stands. -/
def codeOf? (response : Response) : Option String :=
  response.codes.head?.filter Unicode.isDigits

/-- The body of a response by its media type. -/
def responseBody (version : Version) (mediaType : String) (response : Response) :
    Outcome Value := do
  if mediaType.isEmpty then return .null
  let body := Schema.spreadRequired (← version.body
    [("body", .str response.body), ("example", Value.ofText? response.sample)])
  if body.isVacant then return .null
  return .obj [(mediaType, body)]

/-- The parameters of an object schema, unless it describes nothing. -/
def describedParameters (schema : Members) : Outcome (Option Value) :=
  if Schema.isEmptyObject schema then .ok none else namedParametersOf schema

def responseFields (version : Version) (mediaType : String) (response : Response) :
    Outcome Members := do
  let body ← responseBody version mediaType response
  let headers ← describedParameters response.headers
  let fields := Members.putGiven [] "body" body
  let fields := Members.putGiven fields "description" (.str response.description)
  return Members.putGiven fields "headers" (headers.getD .null)

/-- The responses by their codes. Of two with one code the later one counts. -/
def responsesByCode (version : Version) (mediaType : String) (responses : List Response) :
    Outcome Members := do
  let coded := responses.filterMap fun response =>
    (codeOf? response).map fun code => (code, response)
  let declared ← coded.mapM fun pair => do
    return (pair.1, Value.obj (← responseFields version mediaType pair.2))
  return Entries.ofList declared

end Ramlify.Raml
