import Ramlify.Access
import Ramlify.Json
import Ramlify.Unicode.Blank
import Ramlify.Yaml.Content

/-!
# Telling formats apart

The format of a text is told by its first line if it is RAML, and else by the members that it has as
YAML or as JSON. A text that is neither, or has none of the members, is of unknown format. Values
that cannot be looked at are a misuse, which is not taken for an unknown format.
-/

namespace Ramlify

/-- What a text is taken for. -/
inductive Detected where
  | postman
  | swagger
  | raml
  | unknown
  deriving DecidableEq, Repr

namespace Detected

/-- The name of what a text is taken for. -/
def tag : Detected → String
  | postman => "postman"
  | swagger => "swagger"
  | raml => "raml"
  | unknown => "unknown"

/-- The format of an object by its members. -/
def ofMembers (m : Members) : Outcome Detected := do
  if Entries.has m "openapi" || Entries.has m "swagger" then return swagger
  if Entries.has m "requests" then return postman
  let info := (Entries.get? m "info").getD (.obj [])
  if ← info.holds "_postman_id" then return postman
  return unknown

def ofValue : Value → Outcome Detected
  | .obj m => ofMembers m
  | _ => .ok unknown

def ofYaml (text : String) : Outcome Detected :=
  match Yaml.outlineOf 2 text with
  | .ok v => ofValue v
  | .error .malformed => .ok unknown
  | .error (.misuse misuse) => .error (.misuse misuse)

def ofJson (text : String) : Outcome Detected :=
  match Json.read text.toList with
  | .ok v => ofValue v
  | .error _ => .ok unknown

def ramlMark : List Char := "#%RAML".toList

def ofText (text : String) : Outcome Detected := do
  if ramlMark.isPrefixOf (Unicode.trimStart text.toList) then return raml
  match ← ofYaml text with
  | unknown => ofJson text
  | found => return found

end Detected

end Ramlify
