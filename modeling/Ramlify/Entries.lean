/-!
# Keyed lists

A list of keys with their values, in the order in which the keys were first put there. Putting a
value under a key that is present replaces the value and keeps the place.
-/

namespace Ramlify

/-- Keys with their values, in order of first appearance. -/
abbrev Entries (κ α : Type) := List (κ × α)

namespace Entries

variable {κ α : Type} [BEq κ]

def get? : Entries κ α → κ → Option α
  | [], _ => none
  | (k, v) :: rest, key => if k == key then some v else get? rest key

def has (entries : Entries κ α) (key : κ) : Bool := (get? entries key).isSome

/-- Replaces the value under a key, or adds the key at the end. -/
def put : Entries κ α → κ → α → Entries κ α
  | [], key, value => [(key, value)]
  | (k, v) :: rest, key, value =>
    if k == key then (k, value) :: rest else (k, v) :: put rest key value

def erase : Entries κ α → κ → Entries κ α
  | [], _ => []
  | (k, v) :: rest, key => if k == key then rest else (k, v) :: erase rest key

/-- Puts all entries of a list, in their order. -/
def putAll (entries : Entries κ α) (more : List (κ × α)) : Entries κ α :=
  more.foldl (fun acc entry => put acc entry.1 entry.2) entries

/-- The entries of a list in which a key may occur several times: the last value counts, at the
place of the first occurrence. -/
def ofList (pairs : List (κ × α)) : Entries κ α := putAll [] pairs

def keys (entries : Entries κ α) : List κ := entries.map (·.1)

end Entries

end Ramlify
