import Ramlify.Model.Endpoint

/-!
# Environments

What holds for an API as a whole: where it is, which media types and protocols it has, how callers
are identified, and in which order its parts are shown.
-/

namespace Ramlify

open Shape

/-- Someone to turn to. -/
structure Contact where
  name : Option String := none
  url : Option String := none
  email : Option String := none
  extensions : Members := []

def Contact.shape : Shape Contact := record fun m =>
  Contact.mk <$> field m "name" (optional text) none
    <*> field m "url" (optional text) none
    <*> field m "email" (optional text) none
    <*> field m "extensions" object []

/-- The terms under which an API is offered. -/
structure License where
  name : Option String := none
  url : Option String := none
  extensions : Members := []

def License.shape : Shape License := record fun m =>
  License.mk <$> field m "name" (optional text) none
    <*> field m "url" (optional text) none
    <*> field m "extensions" object []

/-- A scope of OAuth 2.0. -/
structure OAuth2Scope where
  name : String
  value : String := ""

def OAuth2Scope.shape : Shape OAuth2Scope := record fun m =>
  OAuth2Scope.mk <$> needed m "name" text <*> field m "value" text ""

/-- Callers are identified by OAuth 2.0. -/
structure OAuth2Scheme where
  name : Option String := none
  flow : String := ""
  scopes : List OAuth2Scope := []
  authorizationUrl : Option String := none
  tokenUrl : Option String := none

def OAuth2Scheme.shape : Shape OAuth2Scheme := record fun m =>
  OAuth2Scheme.mk <$> field m "name" (optional text) none
    <*> field m "flow" text ""
    <*> field m "scopes" (list OAuth2Scope.shape) []
    <*> field m "authorization_url" (optional text) none
    <*> field m "token_url" (optional text) none

/-- Callers are identified by name and password. -/
structure BasicScheme where
  name : Option String := none
  description : Option String := none

/-- The shape of a scheme with name and password. -/
def BasicScheme.shape : Shape BasicScheme := record fun m =>
  BasicScheme.mk <$> field m "name" (optional text) none
    <*> field m "description" (optional text) none

/-- A header or a query parameter that a key travels in. -/
structure ApiKeyTransport where
  name : String
  externalName : Option String := none
  description : Option String := none

/-- The shape of a header or parameter with a key. -/
def ApiKeyTransport.shape : Shape ApiKeyTransport := record fun m =>
  ApiKeyTransport.mk <$> needed m "name" text
    <*> field m "external_name" (optional text) none
    <*> field m "description" (optional text) none

/-- Callers are identified by keys. -/
structure ApiKeyScheme where
  headers : List ApiKeyTransport := []
  query : List ApiKeyTransport := []

def ApiKeyScheme.shape : Shape ApiKeyScheme := record fun m =>
  ApiKeyScheme.mk <$> field m "headers" (list ApiKeyTransport.shape) []
    <*> field m "query_string" (list ApiKeyTransport.shape) []

/-- The ways in which callers are identified. -/
structure SecuritySchemes where
  oauth2 : Option OAuth2Scheme := none
  basic : Option BasicScheme := none
  apiKey : Option ApiKeyScheme := none

def SecuritySchemes.shape : Shape SecuritySchemes := record fun m =>
  SecuritySchemes.mk <$> field m "oauth2" (optional OAuth2Scheme.shape) none
    <*> field m "basic" (optional BasicScheme.shape) none
    <*> field m "api_key" (optional ApiKeyScheme.shape) none

/-- The groups in which the parts of an API are shown. -/
structure ResourcesOrder where
  docs : List Members := []
  savedEntries : List Members := []

def ResourcesOrder.shape : Shape ResourcesOrder := record fun m =>
  ResourcesOrder.mk <$> field m "docs" (list object) []
    <*> field m "saved_entries" (list object) []

/-- What holds for an API as a whole. -/
structure Environment where
  version : Option String := none
  host : String := ""
  basePath : String := ""
  protocols : List String := []
  consumes : List String := []
  produces : List String := []
  securitySchemes : SecuritySchemes := {}
  externalDocs : Option ExternalDocs := none
  contact : Option Contact := none
  termsOfService : Option String := none
  license : Option License := none
  resourcesOrder : ResourcesOrder := {}
  extensions : Members := []

def Environment.shape : Shape Environment := record fun m =>
  Environment.mk <$> field m "version" (optional text) none
    <*> field m "host" text ""
    <*> field m "base_path" text ""
    <*> field m "protocols" (list text) []
    <*> field m "consumes" (list text) []
    <*> field m "produces" (list text) []
    <*> field m "security_schemes" SecuritySchemes.shape {}
    <*> field m "external_docs" (optional ExternalDocs.shape) none
    <*> field m "contact_info" (optional Contact.shape) none
    <*> field m "terms_of_service" (optional text) none
    <*> field m "license" (optional License.shape) none
    <*> field m "resources_order" ResourcesOrder.shape {}
    <*> field m "extensions" object []

end Ramlify
