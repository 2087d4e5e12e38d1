/-!
# Replacing parts of a text

Every occurrence of a part is replaced, from left to right, where occurrences do not overlap.
-/

namespace Ramlify.Text

/-- Replaces the occurrences of a part that is not empty. The first argument counts the characters
that belong to an occurrence already replaced. -/
def replaceFrom (part replacement : List Char) : Nat → List Char → List Char
  | _, [] => []
  | 0, c :: cs =>
    if part.isPrefixOf (c :: cs) then
      replacement ++ replaceFrom part replacement (part.length - 1) cs
    else c :: replaceFrom part replacement 0 cs
  | covered + 1, _ :: cs => replaceFrom part replacement covered cs

/-- Replaces the occurrences of a part that is not empty. -/
def replaceAll (part replacement s : String) : String :=
  String.ofList (replaceFrom part.toList replacement.toList 0 s.toList)

end Ramlify.Text
