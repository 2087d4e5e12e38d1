/-!
# Grouping

Items that share a key form a group. Groups stand in the order of their first items, and the items
of a group keep their order.
-/

namespace Ramlify

variable {κ α : Type} [BEq κ]

/-- Adds an item to the group of its key, or starts a group at the end. -/
def addToGroup (key : κ) (item : α) : List (κ × List α) → List (κ × List α)
  | [] => [(key, [item])]
  | (k, items) :: rest =>
    if k == key then (k, items ++ [item]) :: rest else (k, items) :: addToGroup key item rest

/-- The groups of items with their keys. -/
def groupPairs (pairs : List (κ × α)) : List (κ × List α) :=
  pairs.foldl (fun groups pair => addToGroup pair.1 pair.2 groups) []

/-- The groups of the items with equal keys. -/
def groupBy (key : α → κ) (items : List α) : List (List α) :=
  (groupPairs (items.map fun item => (key item, item))).map (·.2)

end Ramlify
