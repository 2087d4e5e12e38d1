import Ramlify.Raml.Annotation
import Ramlify.Raml.Version

/-!
# Security

The ways in which callers are identified are declared once, each under a name, and operations refer
to them by these names. A scheme without a name of its own has the name of its kind; a scheme with
keys is named after the parameter or the header that carries the key.
-/

namespace Ramlify

/-- A text, with a default for one that is missing or empty. -/
def textOr (default : String) : Option String → String
  | none => default
  | some s => if s.isEmpty then default else s

/-! ## Names -/

def OAuth2Scheme.declaredName (scheme : OAuth2Scheme) : String := textOr "oauth2" scheme.name

/-- The name of a scheme with name and password. Without one there is no declaration. -/
def BasicScheme.declaredName? (scheme : BasicScheme) : Option String :=
  scheme.name.filter (!·.isEmpty)

/-- The name of a scheme with keys: that of its first parameter, else of its first header. -/
def ApiKeyScheme.declaredName (scheme : ApiKeyScheme) : String :=
  let named (transports : List ApiKeyTransport) : Option String :=
    transports.head?.bind (·.externalName)
  let header := textOr "apiKey" (named scheme.headers)
  textOr header (named scheme.query)

/-- Whether a scheme with keys says where they travel. -/
def ApiKeyScheme.isUsed (scheme : ApiKeyScheme) : Bool :=
  !scheme.headers.isEmpty || !scheme.query.isEmpty

end Ramlify

namespace Ramlify.Raml

/-! ## Declarations -/

/-- The declaration of an OAuth 2.0 scheme. -/
def oauth2Declaration (version : Version) (scheme : OAuth2Scheme) : Value :=
  let address := Members.putGiven [] "authorizationUri" (Value.ofText? scheme.authorizationUrl)
  let settings := address ++
    [("accessTokenUri", .str (scheme.tokenUrl.getD "")),
     ("authorizationGrants", Value.texts (version.grants scheme.flow))]
  let scopes := if scheme.scopes.isEmpty then [] else
    [("scopes", Value.texts (scheme.scopes.map (·.name)))]
  .obj [("type", .str "OAuth 2.0"), ("settings", .obj (settings ++ scopes))]

/-- The declaration of a scheme with name and password. -/
def basicDeclaration (scheme : BasicScheme) : Value :=
  .obj (Members.putGiven [("type", .str "Basic Authentication")] "description"
    (Value.ofText? scheme.description))

/-- The headers or parameters that keys travel in. -/
def keyParameters (transports : List ApiKeyTransport) : Value :=
  .obj (Entries.ofList (transports.map fun t => (t.name, .obj [("type", .str "string")])))

/-- The declaration of a scheme with keys. A parameter describes it rather than a header. -/
def apiKeyDeclaration (version : Version) (scheme : ApiKeyScheme) : Value :=
  let headers := if scheme.headers.isEmpty then [] else
    [("headers", keyParameters scheme.headers)]
  let parameters := if scheme.query.isEmpty then [] else
    [("queryParameters", keyParameters scheme.query)]
  let describing := if scheme.query.isEmpty then scheme.headers else scheme.query
  let declared := [("type", Value.str version.apiKeyType),
    ("describedBy", .obj (headers ++ parameters))]
  .obj (Members.putGiven declared "description"
    (Value.ofText? (describing.head?.bind (·.description))))

/-- The declarations of all schemes by their names. Of two with one name the later one counts. -/
def schemeDeclarations (version : Version) (schemes : SecuritySchemes) : Members :=
  let oauth2 := schemes.oauth2.toList.map fun s =>
    (s.declaredName, oauth2Declaration version s)
  let basic := schemes.basic.toList.filterMap fun s =>
    s.declaredName?.map fun name => (name, basicDeclaration s)
  let apiKey := (schemes.apiKey.toList.filter (·.isUsed)).map fun s =>
    (s.declaredName, apiKeyDeclaration version s)
  Entries.ofList (oauth2 ++ basic ++ apiKey)

/-- The declarations of all schemes as a part of a definition, if there are any. -/
def securitySchemes? (version : Version) (schemes : SecuritySchemes) : Option Value :=
  match schemeDeclarations version schemes with
  | [] => none
  | declared => some (version.declarations declared)

/-! ## References -/

/-- A reference to an OAuth 2.0 scheme: its name, with the scopes if there are any. -/
def oauth2Reference (name : String) (scopes : List String) : Value :=
  if scopes.isEmpty then .str name else .obj [(name, .obj [("scopes", Value.texts scopes)])]

/-- The references of an operation to the schemes it is secured by. Requirements that no scheme
meets are left out. -/
def securedBy (required : SecuredBy) (schemes : SecuritySchemes) : List Value :=
  let oauth2 := match required.oauth2, schemes.oauth2 with
    | some scopes, some scheme => [oauth2Reference scheme.declaredName scopes]
    | _, _ => []
  let basic := if required.basic then
      (schemes.basic.bind (·.declaredName?)).toList.map Value.str
    else []
  let apiKey := if required.apiKey then
      (schemes.apiKey.toList.filter (·.isUsed)).map fun s => .str s.declaredName
    else []
  oauth2 ++ basic ++ apiKey

end Ramlify.Raml
