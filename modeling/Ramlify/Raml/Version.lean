import Ramlify.Schema.Parameter
import Ramlify.Schema.References
import Ramlify.Schema.Required
import Ramlify.Model.Project
import Ramlify.Text.Words

/-!
# Versions of RAML

RAML 0.8 and RAML 1.0 describe the same things in different shapes. A version answers how the parts
that differ are written: RAML 0.8 keeps JSON schemas as texts, declares things in lists and has no
annotations; RAML 1.0 turns schemas into types and declares things in maps.
-/

namespace Ramlify.Raml

/-- A version of RAML. -/
inductive Version where
  | v08
  | v10
  deriving DecidableEq, Repr

namespace Version

def tag : Version → String
  | v08 => "0.8"
  | v10 => "1.0"

def ofTag (tag : String) : Outcome Version :=
  if tag = "0.8" then .ok v08
  else if tag = "1.0" then .ok v10
  else .error (.unknownVersion tag)

def hasAnnotations : Version → Bool
  | v08 => false
  | v10 => true

/-! ## The head of a definition -/

/-- Adds the description of an API, unless it is empty. RAML 0.8 has it as the first section of the
documentation. -/
def addDescription (version : Version) (definition : Members) (description : String) :
    Outcome Members :=
  if description.isEmpty then .ok definition
  else
    match version with
    | v10 => .ok (Entries.put definition "description" (.str description))
    | v08 => do
      let given := Value.obj [("title", .str "Description"), ("content", .str description)]
      let sections ← match Entries.get? definition "documentation" with
        | none => .ok []
        | some (.list sections) => .ok sections
        | some _ => .error (.misuse .operation)
      return Entries.put definition "documentation" (.list (given :: sections))

/-- Adds a description to a definition of any type. -/
def addDescriptionTo (version : Version) (definition : Value) (description : String) :
    Outcome Value :=
  if description.isEmpty then .ok definition
  else
    match version, definition with
    | _, .obj members => return .obj (← version.addDescription members description)
    | v10, _ => .error (.misuse .type)
    | v08, _ => .error (.misuse .operation)

/-- The media types of an API by those consumed and produced. RAML 0.8 has the first one only. -/
def mediaType (version : Version) (consumes produces : List String) : Value :=
  match version with
  | v08 => .str ((consumes ++ produces).headD "")
  | v10 =>
    match Entries.keys (Entries.ofList ((consumes ++ produces).map fun type => (type, ()))) with
    | [] => .str ""
    | [type] => .str type
    | types => Value.texts types

/-- The items of two lists, or the characters of two texts. One without anything in it is passed
over. -/
def joined (first second : Value) : Outcome (List Value) :=
  let first := if first.isVacant then .list [] else first
  let second := if second.isVacant then .list [] else second
  match first, second with
  | .list items, .list more => .ok (items ++ more)
  | .str _, .str _ => return (← first.elements) ++ (← second.elements)
  | _, _ => .error (.misuse .type)

/-- The media types of an API by values of any type. -/
def mediaTypeOf (version : Version) (consumes produces : Value) : Outcome Value := do
  let types ← joined consumes produces
  match version with
  | v08 => return types.headD (.str "")
  | v10 =>
    let keyed ← types.mapM fun type => do return (← type.key, ())
    match (Entries.keys (Entries.ofList keyed)).map Scalar.toValue with
    | [] => return .str ""
    | [type] => return type
    | types => return .list types

/-! ## Schemas -/

/-- What an example stands for: the value of a JSON text, and any other text as it is. -/
def sampleValue (v : Value) : Outcome Value :=
  match v with
  | .str text =>
    match Json.parse text with
    | .ok parsed => .ok parsed
    | .error (.misuse fault) => .error (.misuse fault)
    | .error _ => .ok v
  | v => .ok v

/-- The name that a schema refers to, if it is nothing but a reference to a schema of the same
document. -/
def schemaName? (schema : Value) : Outcome (Option String) :=
  match schema with
  | .obj members =>
    match (Entries.get? members "$ref").getD (.str "") with
    | .str reference =>
      if reference.startsWith Schema.localReference then
        .ok (some (Text.replaceAll Schema.localReference "" reference))
      else .ok none
    | _ => .error (.misuse .operation)
  | _ => .ok none

/-- The body that an entry with the text of a schema and an example gives. -/
def body (version : Version) (entry : Members) : Outcome Value := do
  let text := Members.find entry "body"
  if text.isVacant then return .obj []
  let schema ← Json.parseStored text
  let sample := Members.find entry "example"
  match version with
  | v10 =>
    let type := Schema.typed schema
    if sample.isVacant then return type
    -- The example is read before it turns out whether the type can hold it.
    let sample ← sampleValue sample
    type.put "example" sample
  | v08 =>
    let name := match ← schemaName? schema with
      | some name => name
      | none => Json.stored schema
    let result := [("schema", Value.str name)]
    if sample.isVacant then return .obj result
    return .obj (result ++ [("example", sample)])

/-- Turns the type of a form field that is no text into the type of files. -/
def fileType (field : Members) : Members :=
  if (Members.find field "type").isText "binary" then Entries.put field "type" (.str "file")
  else field

/-- A value, with the empty list for one that has nothing in it. -/
def orEmptyList (v : Value) : Value := if v.isVacant then .list [] else v

/-- The properties of an object schema. One without anything in it has none. -/
def propertiesOf (schema : Members) : Outcome Members :=
  let properties := Members.find schema "properties"
  if properties.isVacant then .ok [] else properties.members

def formField (property : String × Value) : Outcome (String × Value) := do
  let members ← property.2.members
  let given := members.filter fun member =>
    match member.2 with
    | .null => false
    | _ => true
  return (property.1, .obj (fileType given))

def formParameter (required : Value) (property : String × Value) : Outcome (String × Members) := do
  let field := fileType (← Schema.carriedFieldsOf property.2)
  if ← required.holds property.1 then
    return (property.1, Entries.put field "required" (.bool true))
  else return (property.1, field)

def form (version : Version) (schema : Value) : Outcome Value := do
  let schema ← schema.members
  let required := orEmptyList (Members.find schema "required")
  let properties ← propertiesOf schema
  match version with
  | v10 =>
    let fields ← properties.mapM formField
    return Schema.spreadRequired (.obj [("properties", .obj fields), ("required", required)])
  | v08 =>
    let parameters ← properties.mapM (formParameter required)
    return .obj [("formParameters", Schema.parameterMap (Schema.acceptParameters parameters))]

/-- A named schema as a type. Its description counts where the type has none. -/
def typeOf (schema : NamedSchema) : Outcome Value := do
  let type := Schema.spreadRequired (Schema.typed (← Json.parse schema.definition))
  if schema.description.isEmpty then return type
  if ← type.holds "description" then return type
  type.put "description" (.str schema.description)

def declareSchemas (version : Version) (schemas : List NamedSchema) : Outcome Value :=
  match version with
  | v10 => do
    let types ← schemas.mapM fun schema => do return (schema.name, ← typeOf schema)
    return .obj (Entries.ofList types)
  | v08 => do
    let texts ← schemas.mapM fun schema => do
      return Value.obj [(schema.name, .str (Json.stored (← Json.parse schema.definition)))]
    return .list texts

/-- The member that the declarations of schemas are. -/
def schemasName : Version → String
  | v10 => "types"
  | v08 => "schemas"

/-- Adds the declarations of schemas to a definition. -/
def addSchemas (version : Version) (definition : Members) (schemas : Value) : Members :=
  Entries.put definition version.schemasName schemas

/-- Adds the declarations of schemas to a definition of any type. -/
def addSchemasTo (version : Version) (definition schemas : Value) : Outcome Value :=
  definition.put version.schemasName schemas

/-! ## Security -/

/-- The words of a version for the flows of OAuth 2.0. -/
def grantWords : Version → Entries String String
  | v10 => [("implicit", "implicit"), ("password", "password"),
      ("application", "client_credentials"), ("accessCode", "authorization_code")]
  | v08 => [("implicit", "token"), ("password", "owner"), ("application", "credentials"),
      ("accessCode", "code")]

/-- The grants of a flow. A flow that is not known has none. -/
def grants (version : Version) (flow : String) : List String :=
  (Entries.get? version.grantWords flow).toList

def grantsOf (version : Version) (flow : Value) : Outcome (List String) := do
  match ← flow.key with
  | .str flow => return version.grants flow
  | _ => return []

/-- The type of security schemes with keys. -/
def apiKeyType : Version → String
  | v10 => "Pass Through"
  | v08 => "x-api-key"

/-- Declarations by name: one map, or a list of maps with one name each. -/
def declarations (version : Version) (named : Members) : Value :=
  match version with
  | v10 => .obj named
  | v08 => .list (named.map fun declaration => .obj [declaration])

/-- Declarations that are the members of a value. -/
def declarationsOf (version : Version) (named : Value) : Outcome Value :=
  match version with
  | v10 => .ok named
  | v08 => do return version.declarations (← named.members)

/-! ## Methods and traits -/

/-- Adds the name under which a method is shown, unless it is empty. RAML 0.8 has no such names: a
method without a description is described by it. -/
def addDisplayName (version : Version) (method : Members) (name : Value) : Members :=
  if name.isVacant then method
  else
    match version with
    | v10 => Entries.put method "displayName" name
    | v08 => if Entries.has method "description" then method
        else Entries.put method "description" name

/-- Adds the name under which a method of any type is shown. -/
def addDisplayNameTo (version : Version) (method name : Value) : Outcome Value := do
  match method with
  | .obj members => return .obj (version.addDisplayName members name)
  | _ =>
    if name.isVacant then return method
    match version with
    | v10 => method.put "displayName" name
    | v08 => if ← method.holds "description" then return method else method.put "description" name

def noTraits : Version → Value
  | v10 => .obj []
  | v08 => .list []

/-- Declares a trait under its name in camel case. -/
def declareTrait (version : Version) (name : String) (trait traits : Value) : Outcome Value :=
  match version, traits with
  | v10, _ => traits.put (Text.camelCase name) trait
  | v08, .list declared => .ok (.list (declared ++ [.obj [(Text.camelCase name, trait)]]))
  | v08, _ => .error (.misuse .operation)

end Version

/-! ## Questions that a version has to answer -/

/-- What a version is asked. -/
inductive Question where
  | version
  | description
  | grants
  | mediaType
  | body
  | form
  | schemas
  | addSchemas
  | apiKeyType
  | securitySchemes
  | displayName
  | noTraits
  | declareTrait
  deriving DecidableEq, Repr

/-- The operation that answers a question. -/
def Question.operation : Question → String
  | version => "version"
  | description => "description"
  | grants => "map_authorization_grants"
  | mediaType => "map_media_type"
  | body => "map_body"
  | form => "map_request_body_form"
  | schemas => "map_schema"
  | addSchemas => "add_schema"
  | apiKeyType => "get_api_key_type"
  | securitySchemes => "map_security_schemes"
  | displayName => "set_method_display_name"
  | noTraits => "initialize_traits"
  | declareTrait => "add_trait"

/-- A version that answers no question fails by naming the operation. -/
def Question.unanswered (question : Question) : Failure := .notSupplied question.operation

end Ramlify.Raml
