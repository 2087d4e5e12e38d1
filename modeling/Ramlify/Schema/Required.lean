import Ramlify.Value

/-!
# Required properties

A JSON schema lists the names of its required properties; in RAML a property is required unless it
says otherwise. `Schema.spreadRequired` takes the lists away and marks the properties that they
leave out. It goes down through nested properties only.
-/

namespace Ramlify.Schema

/-- The list of the required properties of an object schema. -/
def requiredItems (members : Members) : List Value :=
  match Members.find members "required" with
  | .list items => items
  | _ => []

/-- Whether a member is a list of required properties. -/
def isRequiredList (name : String) (member : Value) : Bool :=
  match member with
  | .list _ => name == "required"
  | _ => false

/-- Marks a property as optional unless it is listed. -/
def markOptional (required : List Value) (name : String) (property : Members) : Members :=
  if required.any (Value.isText name) then property
  else Entries.put property "required" (.bool false)

mutual

/-- The members of an object schema without its list of required properties. -/
def spreadMembers (required : List Value) : List (String × Value) → Members
  | [] => []
  | (name, member) :: rest =>
    if isRequiredList name member then spreadMembers required rest
    else if name = "properties" then
      (name, spreadProperties required member) :: spreadMembers required rest
    else (name, member) :: spreadMembers required rest
termination_by structural members => members

/-- The properties of an object schema with the optional ones marked. -/
def spreadProperties (required : List Value) : Value → Value
  | .obj properties => .obj (spreadEach required properties)
  | v => v
termination_by structural property => property

/-- Marks each property that is not required, and goes on within those that have properties. -/
def spreadEach (required : List Value) : List (String × Value) → List (String × Value)
  | [] => []
  | (name, property) :: rest =>
    (name, spreadProperty required name property) :: spreadEach required rest
termination_by structural properties => properties

def spreadProperty (required : List Value) (name : String) : Value → Value
  | .obj members =>
    let inner :=
      if Entries.has members "properties" then spreadMembers (requiredItems members) members
      else members
    .obj (markOptional required name inner)
  | v => v
termination_by structural property => property

end

/-- Turns the lists of required properties into marks on the others. -/
def spreadRequired : Value → Value
  | .obj members => .obj (spreadMembers (requiredItems members) members)
  | v => v

end Ramlify.Schema
