import Ramlify.Raml.Method
import Ramlify.Raml.Order
import Ramlify.Raml.Resource
import Ramlify.Text.Split

/-!
# Definitions

The RAML definition of an API: a head, the declarations that operations refer to, and a tree of
resources. Members without anything in them are left out. The declarations of the annotations that
occur stand before the first resource.
-/

namespace Ramlify.Raml

/-! ## The head -/

/-- Title, version, address, media types and protocols of an API. -/
def header (version : Version) (project : Project) : Members :=
  let env := project.environment
  let m := [("title", Value.str project.name), ("version", Value.ofText? env.version)]
  let m := Members.putGiven m "baseUri" (.str (env.host ++ env.basePath))
  let m := Entries.put m "mediaType" (version.mediaType env.consumes env.produces)
  Members.putGiven m "protocols" (Value.texts (protocolNames env.protocols))

/-- Some texts under their names, without those that are missing or empty. -/
def givenTexts (named : List (String × Option String)) : Members :=
  named.foldl (fun m pair => Members.putGiven m pair.1 (Value.ofText? pair.2)) []

/-- Whom to turn to. -/
def contactFields (contact : Contact) : Pass Members :=
  annotateAll
    (givenTexts [("name", contact.name), ("url", contact.url), ("email", contact.email)])
    contact.extensions

/-- The terms under which an API is offered. -/
def licenseFields (license : License) : Pass Members :=
  annotateAll (givenTexts [("name", license.name), ("url", license.url)]) license.extensions

def info (env : Environment) : Pass Members := do
  let m ← annotateAll [] env.extensions
  let m ← match env.contact with
    | none => pure m
    | some contact => do pure (Entries.put m "contact" (.obj (← contactFields contact)))
  let m := Members.putGiven m "termsOfService" (Value.ofText? env.termsOfService)
  match env.license with
  | none => return m
  | some license => return Entries.put m "license" (.obj (← licenseFields license))

def addApiInfo (env : Environment) (definition : Members) : Pass Members := do
  annotateGiven definition "info" (.obj (← info env))

/-- Adds the page that documents an API. -/
def addDocsPage (env : Environment) (definition : Members) : Pass Members :=
  match env.externalDocs with
  | none => return definition
  | some docs => do
    let m := givenTexts [("description", docs.description)] ++ [("url", .str docs.url)]
    annotate definition "externalDocs" (.obj (← annotateAll m docs.extensions))

/-! ## Documentation -/

/-- The sections of a documentation that have a name and a content. -/
def sections (texts : List Section) : List Value :=
  (texts.filter fun text => !text.divider && !text.name.isEmpty && !text.content.isEmpty).map
    fun text => .obj [("title", .str text.name), ("content", .str text.content)]

/-- Adds sections after those that a definition has. -/
def addSections (texts : List Section) (definition : Members) : Outcome Members :=
  match sections texts with
  | [] => .ok definition
  | more => do
    let before ← match Entries.get? definition "documentation" with
      | none => .ok []
      | some (.list before) => .ok before
      | some _ => .error (.misuse .type)
    return Entries.put definition "documentation" (.list (before ++ more))

/-! ## Resources -/

/-- Adds what is kept for the paths of an API as a whole. -/
def addPaths (extensions definition : Members) : Pass Members := do
  annotateGiven definition "paths" (.obj (← annotateAll [] extensions))

/-- The segments of a path, without what stands before the first slash. -/
def segmentsOf (path : String) : List String :=
  ((Text.split '/' path.toList).drop 1).map String.ofList

/-- Adds an operation to a tree of resources. -/
def addOperation (version : Version) (project : Project) (mediaType tree : Value) (e : Endpoint) :
    Pass Value := do
  let method ← methodOf version project mediaType e
  placeMethod tree (segmentsOf e.request.path) e.request.method (.obj method)

/-- The tree of resources with all operations. -/
def resources (version : Version) (project : Project) (mediaType : Value) : Pass Members := do
  let endpoints ← inDisplayOrder project.environment.resourcesOrder.docs project.endpoints
  let tree ← endpoints.foldlM (addOperation version project mediaType) (.obj [])
  tree.members

/-! ## Declarations -/

def addTypes (version : Version) (schemas : List NamedSchema) (definition : Members) :
    Outcome Members := do
  if schemas.isEmpty then return definition
  return version.addSchemas definition (← version.declareSchemas schemas)

def addTraits (version : Version) (mediaType : Value) (traits : List Trait) (definition : Members) :
    Outcome Members := do
  if traits.isEmpty then return definition
  let declared ← traitDeclarations version (mediaTypeFor [] mediaType) traits
  return Members.putGiven definition "traits" declared

def isResource (member : String × Value) : Bool := member.1.startsWith "/"

/-- A definition with the declarations of its annotations before its resources. Annotations that do
not occur are not declared. -/
def withDeclarations (definition : Members) (written : Annotations) : Members :=
  match (written.keepOccurring (.obj definition)).declarations with
  | [] => definition
  | declared =>
    let before := definition.filter (!isResource ·)
    Entries.putAll (Entries.put before "annotationTypes" (.obj declared))
      (definition.filter isResource)

/-! ## The definition -/

/-- The head of a definition, with the declarations of security schemes. -/
def opening (version : Version) (project : Project) : Pass Members := do
  let env := project.environment
  let m ← version.addDescription (header version project) project.description
  let m ← annotateGiven m "tags-definition" (.list (project.tags.map .obj))
  let m ← addApiInfo env m
  let m ← addDocsPage env m
  let m ← addSections project.texts m
  let m := Members.putGiven m "securitySchemes"
    ((securitySchemes? version env.securitySchemes).getD .null)
  addPaths project.endpointExtensions m

/-- All of a definition but the declarations of annotations. -/
def content (version : Version) (project : Project) : Pass Members := do
  let m ← opening version project
  let mediaType := Members.find m "mediaType"
  let tree ← resources version project mediaType
  let m ← addTypes version project.schemas m
  let m ← addTraits version mediaType project.traits m
  let m := (Entries.putAll m tree).filter fun member => !member.2.isVacant
  annotateAll m project.extensions

/-- The definition of an API. -/
def definition (version : Version) (project : Project) : Outcome Members := do
  let (m, written) ← (content version project).run { enabled := version.hasAnnotations }
  return withDeclarations m written

end Ramlify.Raml
