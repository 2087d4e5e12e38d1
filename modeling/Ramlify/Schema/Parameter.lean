import Ramlify.Access
import Ramlify.Json

/-!
# Parameters

A RAML parameter carries fewer fields than a JSON schema. `Schema.carriedFields` picks the fields
a parameter can have, and `Schema.acceptParameters` leaves out the parameters of types RAML does not
know and the fields that do not go with the type.
-/

namespace Ramlify.Schema

def parameterTypes : List String :=
  ["string", "number", "integer", "date", "boolean", "file", "array", "datetime"]

/-- The fields of a schema that a parameter takes over, in their order. -/
def carriedFieldNames : List String :=
  ["type", "displayName", "description", "default", "enum", "pattern", "minLength", "maxLength",
   "minimum", "maximum", "example", "required", "repeat"]

/-- The fields of texts only. -/
def textFieldNames : List String := ["enum", "pattern", "minLength", "maxLength"]

/-- The fields of numbers only. -/
def numberFieldNames : List String := ["minimum", "maximum"]

/-- The fields that go with every type. -/
def commonFieldNames : List String :=
  ["required", "displayName", "description", "example", "repeat", "default", "items", "format",
   "maxItems", "minItems", "uniqueItems", "(oas-collectionFormat)", "(oas-allowEmptyValue)",
   "(oas-exclusiveMaximum)", "(oas-exclusiveMinimum)"]

/-- The fields that a parameter takes over from a schema. A field that is null is left out. -/
def carriedFields (schema : Members) : Members :=
  carriedFieldNames.filterMap fun name =>
    match Members.find schema name with
    | .null => none
    | v => some (name, v)

def fieldFits (type : Value) (name : String) : Bool :=
  name == "type" || name ∈ commonFieldNames ||
    (name ∈ textFieldNames && type.isText "string") ||
    (name ∈ numberFieldNames && (type.isText "integer" || type.isText "number"))

/-- A parameter without the fields that do not fit, unless its type is not accepted. A parameter
without a type is accepted. -/
def acceptParameter? (parameter : Members) : Option Members :=
  let type := Members.find parameter "type"
  if Entries.has parameter "type" && !parameterTypes.any type.isText then none
  else some (parameter.filter fun field => fieldFits type field.1)

def acceptParameters (parameters : List (String × Members)) : List (String × Members) :=
  parameters.filterMap fun parameter =>
    (acceptParameter? parameter.2).map fun accepted => (parameter.1, accepted)

def parameterMap (parameters : List (String × Members)) : Value :=
  .obj (parameters.map fun parameter => (parameter.1, .obj parameter.2))

/-- The members with some names first, in the order of the names. -/
def orderFirst (names : List String) (members : Members) : Members :=
  let first := Entries.ofList (names.filterMap fun name =>
    (Entries.get? members name).map fun v => (name, v))
  first ++ members.filter fun member => !Entries.has first member.1

/-- Whether an object schema describes nothing. -/
def isEmptyObject (members : Members) : Bool :=
  (Members.find members "properties").isVacant && (Members.find members "$ref").isVacant &&
    (Members.find members "items").isVacant

/-! ## Values of any type -/

/-- The fields that a parameter takes over from a value. -/
def carriedFieldsOf (schema : Value) : Outcome Members := do
  return carriedFields (← schema.members)

/-- The accepted ones of the parameters that are the members of a value. -/
def acceptParametersOf (parameters : Value) : Outcome Value := do
  let parameters ← (← parameters.members).mapM fun parameter => do
    return (parameter.1, ← parameter.2.members)
  return parameterMap (acceptParameters parameters)

/-- Whether a value is no schema or one that describes nothing. A text is read first. -/
def describesNothing (schema : Value) : Outcome Bool := do
  if schema.isVacant then return true
  let schema ← match schema with
    | .str text => Json.parse text
    | v => .ok v
  match schema with
  | .obj members => return isEmptyObject members
  | _ => return true

/-- The members of a value with some names first. -/
def orderFirstOf (names : Value) (v : Value) : Outcome Value := do
  let names ← names.elements
  match v with
  | .obj members =>
    let keys ← names.mapM Value.key
    let present := keys.filterMap fun
      | .str name => some name
      | _ => none
    return .obj (orderFirst present members)
  | _ =>
    -- The parts that the names stand for are looked up before the members are.
    names.forM fun name => do
      if ← v.contains name then let _ ← v.item name
    .error (.misuse .operation)

end Ramlify.Schema
