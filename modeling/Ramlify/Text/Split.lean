/-!
# Fields

The parts of a text between the occurrences of a separator. A text without the separator is one
field, the empty text included.
-/

namespace Ramlify.Text

/-- The fields between the separators. There is at least one. -/
def split (separator : Char) : List Char → List (List Char)
  | [] => [[]]
  | c :: cs =>
    if c = separator then [] :: split separator cs
    else
      match split separator cs with
      | [] => [[c]]
      | field :: fields => (c :: field) :: fields

theorem split_ne_nil (separator : Char) (cs : List Char) : split separator cs ≠ [] := by
  cases cs with
  | nil => simp [split]
  | cons c cs =>
    rw [split]
    split
    · simp
    · split <;> simp

def firstField (separator : Char) (cs : List Char) : List Char :=
  cs.takeWhile (· != separator)

def secondField? (separator : Char) (cs : List Char) : Option (List Char) :=
  match cs.dropWhile (· != separator) with
  | [] => none
  | _ :: rest => some (firstField separator rest)

end Ramlify.Text
