import Ramlify.Access
import Ramlify.Model.Project

/-!
# The order of operations

Operations are shown in the order in which the display groups of an API list them; those that are
not listed come first.
-/

namespace Ramlify.Raml

def groupItems (group : Members) : Outcome (List Value) :=
  match Entries.get? group "items" with
  | none => .ok []
  | some items => items.elements

/-- The id that an item of a display group lists, if it stands for an operation. -/
def listedId? (item : Value) : Outcome (Option Scalar) := do
  let m ← item.members
  if (Members.find m "type").isText "endpoints" then return some (← (Members.find m "_id").key)
  else return none

/-- The ids of the operations that a display group lists. -/
def idsOfGroup (group : Members) : Outcome (List Scalar) := do
  return (← (← groupItems group).mapM listedId?).filterMap id

/-- The ids of the operations that display groups list, each once, in the order of the groups. -/
def listedIds (groups : List Members) : Outcome (List Scalar) := do
  let ids := (← groups.mapM idsOfGroup).flatten
  return Entries.keys (Entries.ofList (ids.map fun id => (id, ())))

/-- An optional id as a key. -/
def keyOfId : Option String → Scalar
  | none => .null
  | some id => .str id

/-- The number of ids before an id, and -1 for one that is not listed. -/
def position (ids : List Scalar) (id : Option String) : Int :=
  match ids.findIdx? (· == keyOfId id) with
  | none => -1
  | some index => index

/-- Operations in the order of some ids. Those of one position keep their order. -/
def sortByPosition (ids : List Scalar) (endpoints : List Endpoint) : List Endpoint :=
  endpoints.mergeSort fun a b => decide (position ids a.id ≤ position ids b.id)

/-- Operations in the order in which display groups list them. -/
def inDisplayOrder (groups : List Members) (endpoints : List Endpoint) :
    Outcome (List Endpoint) := do
  return sortByPosition (← listedIds groups) endpoints

end Ramlify.Raml
