import Ramlify.Json
import Ramlify.Postman.Variable
import Ramlify.Text.Percent
import Ramlify.Text.Split
import Ramlify.Unicode.Blank

/-!
# Parameters of a request

The query, the header block and the form fields of a request become object schemas: a property for
each name, with the value given in the request as default. A name that occurs again replaces the
property and keeps its place.
-/

namespace Ramlify.Postman

/-- An object schema with optional properties. -/
def objectSchema (properties : Members) : Value :=
  .obj [("type", .str "object"), ("properties", .obj properties), ("required", .list [])]

def textProperty (default : Value) : Value :=
  .obj [("type", .str "string"), ("default", default)]

/-! ## Query -/

/-- The property that a part of a query gives: the name before its first equals sign, the value
between that and the next one. -/
def queryProperty (part : List Char) : String × Value :=
  let name := Text.percentDecode (Text.firstField '=' part)
  let value := Text.percentDecode ((Text.secondField? '=' part).getD [])
  (String.ofList name, textProperty (defaultOf value))

def queryProperties (query : List Char) : Members :=
  if query.isEmpty then [] else Entries.ofList ((Text.split '&' query).map queryProperty)

def querySchema (query : List Char) : Value := objectSchema (queryProperties query)

/-- The schema of the query that a value is. -/
def queryOf (v : Value) : Outcome Value := do
  let query ← if v.isVacant then .ok [] else v.letters
  return querySchema query

/-! ## Headers -/

/-- The property that a line of a header block gives, unless the line is blank: the name before its
first colon, the value between that and the next one. -/
def headerProperty? (line : List Char) : Option (String × Value) :=
  if (Unicode.trim line).isEmpty then none
  else
    let name := Unicode.trim (Text.firstField ':' line)
    let value := Unicode.trim ((Text.secondField? ':' line).getD [])
    some (String.ofList name, textProperty (defaultOf value))

def headerProperties (block : List Char) : Members :=
  Entries.ofList ((Text.split '\n' block).filterMap headerProperty?)

def headerSchema (block : List Char) : Value := objectSchema (headerProperties block)

/-- The schema of the header block that a value is. -/
def headersOf (v : Value) : Outcome Value := do
  let block ← if v.isVacant then .ok [] else v.letters
  return headerSchema block

/-! ## Form fields -/

/-- The key and the property that a field gives. A field of another type than text is a file. -/
def formProperty (field : Value) : Outcome (Scalar × Value) := do
  let members ← field.members
  let type := if (Members.find members "type").isText "text" then "string" else "binary"
  let default ← defaultOfValue (Members.find members "value")
  let key ← (Members.find members "key").key
  return (key, .obj [("type", .str type), ("default", default)])

/-- The body entry of form fields. Keys of any type are written as the names they have in JSON. -/
def requestBody (v : Value) : Outcome Members := do
  let fields ← match v with
    | .list fields => fields.mapM formProperty
    | _ => .ok []
  let named := (Entries.ofList fields).map fun field => (Json.nameOf field.1, field.2)
  return [("body", objectSchema named)]

/-- The media types that a data mode stands for. -/
def mediaTypes (mode : Value) : List String :=
  if mode.isText "urlencoded" then ["application/x-www-form-urlencoded"]
  else if mode.isText "params" then ["multipart/form-data"]
  else ["text/plain"]

end Ramlify.Postman
