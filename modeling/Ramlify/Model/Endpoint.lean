import Ramlify.Model.Request

/-!
# Endpoints

An operation of an API: a request whose parameters are schemas, with what is documented about it.
-/

namespace Ramlify

open Shape

/-- A page that documents something. -/
structure ExternalDocs where
  url : String
  description : Option String := none
  extensions : Members := []

def ExternalDocs.shape : Shape ExternalDocs := record fun m =>
  ExternalDocs.mk <$> needed m "url" text
    <*> field m "description" (optional text) none
    <*> field m "extensions" object []

/-- A documented response. The body is the text of a schema, the headers are a schema. -/
structure Response where
  codes : List String := []
  body : String := ""
  headers : Members := []
  description : String := ""
  sample : Option String := none

def Response.shape : Shape Response := record fun m =>
  Response.mk <$> field m "codes" (list text) []
    <*> field m "body" text ""
    <*> field m "headers" object []
    <*> field m "description" text ""
    <*> field m "example" (optional text) none

/-- What a caller has to show. OAuth 2.0 comes with scopes, of which there may be none. -/
structure SecuredBy where
  oauth2 : Option (List String) := none
  basic : Bool := false
  apiKey : Bool := false

/-- The shape of security requirements. -/
def SecuredBy.shape : Shape SecuredBy := record fun m =>
  SecuredBy.mk <$> field m "oauth2" (optional (list text)) none
    <*> field m "basic" truth false
    <*> field m "api_key" truth false

/-- An operation of an API. -/
structure Endpoint extends Entry where
  produces : List String := []
  description : String := ""
  summary : String := ""
  operationId : Option String := none
  protocols : List String := []
  /-- A script to be run before the request. -/
  before : Value := .null
  responses : List Response := []
  responseExtensions : Members := []
  securedBy : Option SecuredBy := none
  /-- The ids of the traits that the operation has. -/
  traits : List String := []
  tags : List String := []
  deprecated : Bool := false
  externalDocs : Option ExternalDocs := none
  extensions : Members := []
  deriving Inhabited

def Endpoint.shape : Shape Endpoint := record fun m =>
  Endpoint.mk <$> Entry.fields m
    <*> field m "produces" (list text) []
    <*> field m "description" text ""
    <*> field m "summary" text ""
    <*> field m "operation_id" (optional text) none
    <*> field m "protocols" (list text) []
    <*> field m "before" (fun v => (optional text v).map Value.ofText?) .null
    <*> field m "responses" (list Response.shape) []
    <*> field m "response_extensions" object []
    <*> field m "secured_by" (optional SecuredBy.shape) none
    <*> field m "traits" (list text) []
    <*> field m "tags" (list text) []
    <*> field m "deprecated" truth false
    <*> field m "external_docs" (optional ExternalDocs.shape) none
    <*> field m "extensions" object []

/-- A request as it was saved, with literal values. -/
abbrev SavedEntry := Entry

def SavedEntry.shape : Shape SavedEntry := record Entry.fields

end Ramlify
