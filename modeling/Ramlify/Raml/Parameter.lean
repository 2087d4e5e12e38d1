import Ramlify.Raml.Annotation
import Ramlify.Schema.Parameter
import Ramlify.Schema.References

/-!
# Parameters

The headers, the query and the path parameters of an operation are object schemas. Each property
that is an object becomes a RAML parameter, unless its type is not accepted. Headers keep whether
they are required; query and path parameters keep what RAML has no field for in annotations.
-/

namespace Ramlify.Raml

/-- The properties of an object schema that are objects themselves. -/
def objectProperties (properties : Members) : List (String × Members) :=
  properties.filterMap fun property =>
    match property.2 with
    | .obj members => some (property.1, members)
    | _ => none

/-- A member, with the empty list for one that has nothing in it. -/
def listOrEmpty (members : Members) (name : String) : Value :=
  let v := Members.find members name
  if v.isVacant then .list [] else v

/-- Parameters as a value, without those of types that are not accepted. -/
def accepted (parameters : List (String × Members)) : Value :=
  Schema.parameterMap (Schema.acceptParameters parameters)

/-! ## Named parameters -/

/-- The fields of a parameter, the type and the description first. -/
def namedParameter (required : Value) (property : String × Members) : Outcome (String × Members) :=
  do
    let fields := Schema.carriedFields property.2
    let fields := if ← required.holds property.1 then
        Entries.put fields "required" (.bool true)
      else fields
    return (property.1, Schema.orderFirst ["type", "description"] fields)

/-- The parameters that an object schema with properties gives, references turned into types. A
schema without properties gives none. -/
def namedParametersOf (schema : Members) : Outcome (Option Value) := do
  let properties := Members.find schema "properties"
  if properties.isVacant then return none
  let properties ← (Schema.typed properties).members
  let required := listOrEmpty schema "required"
  return some (accepted (← (objectProperties properties).mapM (namedParameter required)))

/-- The parameters that a schema gives, if it is any. -/
def namedParameters (schema : Value) : Outcome (Option Value) := do
  if schema.isVacant then return none
  namedParametersOf (← schema.members)

/-! ## Parameters of the address -/

/-- What is kept in annotations. -/
def annotatedNames : List String :=
  ["collectionFormat", "allowEmptyValue", "exclusiveMaximum", "exclusiveMinimum"]

/-- The fields of a parameter of the address. It is shown under its description, and it is a text
unless its schema says otherwise. -/
def addressFields (schema : Members) : Members :=
  let fields := Schema.carriedFields schema
  let fields := Members.putGiven fields "displayName" (Members.find schema "description")
  let fields := match Entries.get? schema "items" with
    | none => fields
    | some items => Entries.put fields "items" items
  let fields := Members.putGiven fields "format" (Members.find schema "format")
  let type := Members.find fields "type"
  Entries.put fields "type" (if type.isVacant then .str "string" else type)

/-- Writes those members of a schema into annotations that RAML has no field for. -/
def annotateMembers (schema fields : Members) : Pass Members :=
  annotatedNames.foldlM (fun fields name =>
    match Entries.get? schema name with
    | none => return fields
    | some member => annotate fields name member) fields

def addressParameter (property : String × Members) : Pass (String × Members) := do
  return (property.1, ← annotateMembers property.2 (addressFields property.2))

/-- The query or path parameters that a schema gives, if it has properties. -/
def addressParameters (schema : Value) : Pass (Option Value) := do
  let schema ← if schema.isVacant then pure [] else schema.members
  let properties := Members.find schema "properties"
  if properties.isVacant then return none
  let properties ← (properties.members : Outcome Members)
  return some (accepted (← (objectProperties properties).mapM addressParameter))

end Ramlify.Raml
