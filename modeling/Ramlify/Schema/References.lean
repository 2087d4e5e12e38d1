import Ramlify.Text.Replace
import Ramlify.Value

/-!
# References

A JSON schema names other schemas with `$ref`, `ref` and `include`; a RAML type names them in
`type`. `Schema.typed` turns the ones into the other at every depth and leaves out what RAML has no
place for. A schema of type string is not searched: only its format is adapted.
-/

namespace Ramlify.Schema

/-- The start of a reference to a schema of the same document. -/
def localReference : String := "#/definitions/"

/-- The mark of a type that stands in a file of its own. -/
def includeMark : String := "!include "

/-- The type that a `$ref` names: the name of a schema of the same document, or a file. -/
def referredType (reference : String) : String :=
  if reference.startsWith "#/" then Text.replaceAll localReference "" reference
  else includeMark ++ Text.replaceAll "#/" "#" reference

/-! ## Texts -/

/-- The formats of texts that RAML has no word for. -/
def textFormats : List String := ["byte", "binary", "password"]

def knownFormats : List String :=
  ["int", "int8", "int16", "int32", "int64", "long", "float", "double", "rfc3339", "rfc2616"]

/-- Adapts the format of a schema of type string: dates become types of their own, and a format
that RAML does not know is left out. -/
def adaptFormat (members : Members) : Members :=
  match Members.find members "format" with
  | .str format =>
    if format ∈ textFormats then Entries.erase members "format"
    else if format = "date" then
      Entries.erase (Entries.put members "type" (.str "date-only")) "format"
    else if format = "date-time" then
      Entries.put (Entries.put members "type" (.str "datetime")) "format" (.str "rfc3339")
    else if format ∈ knownFormats then members
    else Entries.erase members "format"
  | _ => Entries.erase members "format"

/-- The facet that marks a text that is only read. -/
def readOnlyFacet : Value := .obj [("readOnly?", .str "boolean")]

def typedText (members : Members) : Members :=
  let adapted := adaptFormat members
  if (Members.find adapted "readOnly").isVacant then adapted
  else Entries.put adapted "facets" readOnlyFacet

/-! ## References at every depth -/

/-- The type that a member names, if the member is a reference. -/
def referenceOf? (name : String) (member : Value) : Option String :=
  match member with
  | .str s =>
    if name = "$ref" then some (referredType s)
    else if name = "ref" then some s
    else if name = "include" then some (includeMark ++ s)
    else none
  | _ => none

/-- Whether a member has no place in RAML: the title of a schema, and bounds that are marked as
exclusive by a scalar. -/
def isLeftOut (name : String) (member : Value) : Bool :=
  match member with
  | .str _ => name == "title"
  | .list _ => false
  | .obj _ => false
  | _ => name == "exclusiveMinimum" || name == "exclusiveMaximum"

mutual

/-- A schema with its references turned into types at every depth. -/
def typed : Value → Value
  | .list items => .list (typedItems items)
  | .obj members =>
    if (Members.find members "type").isText "string" then .obj (typedText members)
    else .obj (typedMembers false [] members)
  | v => v

/-- The items of a list with their references turned into types. -/
def typedItems : List Value → List Value
  | [] => []
  | item :: rest => typed item :: typedItems rest

/-- Adds members to those before, with their references turned into types. A reference becomes the
type; after it, a type given by the schema does not count. -/
def typedMembers (referred : Bool) (before : Members) : List (String × Value) → Members
  | [] => before
  | (name, member) :: rest =>
    match referenceOf? name member with
    | some type => typedMembers true (Entries.put before "type" (.str type)) rest
    | none =>
      if (name == "type" && referred) || isLeftOut name member then
        typedMembers referred before rest
      else
        typedMembers referred (Entries.put before name (typed member)) rest

end

end Ramlify.Schema
