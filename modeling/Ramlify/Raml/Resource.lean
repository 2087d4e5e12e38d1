import Ramlify.Access

/-!
# Resources

The methods of an API hang on a tree of resources: an object whose member `/segment` is the resource
of that segment. Resources come into being when they are first needed and are named by their
segment. The parameters of a method that occur in the name of its resource belong to the resource.

A tree may hold anything, so inserting can fail on the way; what was changed by then stays changed.
-/

namespace Ramlify.Raml

/-- The member under which the resource of a segment stands. -/
def resourceKey (segment : String) : String := "/" ++ segment

/-- A new resource, named by its segment unless that is empty. -/
def newResource (segment : String) : Value :=
  .obj (if segment.isEmpty then [] else [("displayName", .str segment)])

/-- Moves to a resource those parameters whose names occur in its name. -/
def hoist (displayName : Value) : Value → List (String × Value) → Value × Option Failure
  | moved, [] => (moved, none)
  | moved, (name, parameter) :: rest =>
    if displayName.isVacant then hoist displayName moved rest
    else
      match displayName.holds name with
      | .error failure => (moved, some failure)
      | .ok false => hoist displayName moved rest
      | .ok true =>
        match moved.put name parameter with
        | .error failure => (moved, some failure)
        | .ok moved => hoist displayName moved rest

/-- The parameters of a method, and the method without them. -/
def takeParameters (method : Value) : Outcome (Value × Value) :=
  match method with
  | .obj members =>
    .ok (Members.find members "uriParameters", .obj (Entries.erase members "uriParameters"))
  | .list _ => .error (.misuse .type)
  | _ => .error (.misuse .operation)

/-- The parameters as members. One without anything in it has none. -/
def parameterMembers (parameters : Value) : Outcome Members :=
  if parameters.isVacant then .ok [] else parameters.members

/-- Puts a method into the resource it belongs to. -/
def insertHere (key : String) (method : Value) (resource : Members) : Value × Option Failure :=
  let opened :=
    if Entries.has resource "uriParameters" then resource
    else Entries.put resource "uriParameters" (.obj [])
  match takeParameters method with
  | .error failure => (.obj opened, some failure)
  | .ok (parameters, method) =>
    match parameterMembers parameters with
    | .error failure => (.obj opened, some failure)
    | .ok parameters =>
      let (moved, failure) := hoist (Members.find resource "displayName")
        (Members.find opened "uriParameters") parameters
      let changed := Entries.put opened "uriParameters" moved
      match failure with
      | some failure => (.obj changed, some failure)
      | none =>
        let kept := if moved.isVacant then Entries.erase changed "uriParameters" else changed
        (.obj (Entries.put kept key method), none)

/-- Inserts a method below a resource. -/
def insertMethod (key : String) (method : Value) : List String → Value → Value × Option Failure
  | [], .obj resource => insertHere key method resource
  | [], resource => (resource, some (.misuse .operation))
  | segment :: segments, .obj resource =>
    let child := (Entries.get? resource (resourceKey segment)).getD (newResource segment)
    let (child, failure) := insertMethod key method segments child
    (.obj (Entries.put resource (resourceKey segment) child), failure)
  | _ :: _, resource => (resource, some (.misuse .type))

/-- Inserts a method below a resource, or fails. -/
def placeMethod (tree : Value) (segments : List String) (key : String) (method : Value) :
    Outcome Value :=
  match insertMethod key method segments tree with
  | (tree, none) => .ok tree
  | (_, some failure) => .error failure

end Ramlify.Raml
