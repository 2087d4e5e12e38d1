import Ramlify.Model.Environment

/-!
# Projects

The description of an API that every document is read into and written from.
-/

namespace Ramlify

open Shape

/-- A named schema. The definition is the text of a JSON schema. -/
structure NamedSchema where
  name : String
  definition : String := "{}"
  description : String := ""

def NamedSchema.shape : Shape NamedSchema := record fun m =>
  NamedSchema.mk <$> needed m "name" text
    <*> field m "definition" text "{}"
    <*> field m "description" text ""

/-- A section of documentation. -/
structure Section where
  name : String := ""
  content : String := ""
  divider : Bool := false

def Section.shape : Shape Section := record fun m =>
  Section.mk <$> field m "name" text ""
    <*> field m "content" text ""
    <*> field m "divider" truth false

/-- A part that several operations have in common. The parameters are object schemas. -/
structure Trait where
  id : Option String := none
  name : String
  query : Members := []
  headers : Members := []
  responses : List Response := []

def Trait.shape : Shape Trait := record fun m =>
  Trait.mk <$> field m "id" (optional text) none
    <*> needed m "name" text
    <*> field m "query_string" object []
    <*> field m "headers" object []
    <*> field m "responses" (list Response.shape) []

/-- The description of an API. -/
structure Project where
  name : String := ""
  description : String := ""
  endpoints : List Endpoint := []
  savedEntries : List SavedEntry := []
  schemas : List NamedSchema := []
  texts : List Section := []
  traits : List Trait := []
  environment : Environment := {}
  extensions : Members := []
  endpointExtensions : Members := []
  tags : List Members := []

/-- The shape of the description of an API. -/
def Project.shape : Shape Project := record fun m =>
  Project.mk <$> field m "name" text ""
    <*> field m "description" text ""
    <*> field m "endpoints" (list Endpoint.shape) []
    <*> field m "saved_entries" (list SavedEntry.shape) []
    <*> field m "schemas" (list NamedSchema.shape) []
    <*> field m "texts" (list Section.shape) []
    <*> field m "traits" (list Trait.shape) []
    <*> field m "environment" Environment.shape {}
    <*> field m "extensions" object []
    <*> field m "endpoint_extensions" object []
    <*> field m "tags" (list object) []

end Ramlify
