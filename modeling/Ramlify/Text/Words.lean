/-!
# Words

The words of a text are its longest runs of ASCII letters and digits. In camel case they are joined,
the first one beginning with a small letter and the others with a capital one.
-/

namespace Ramlify.Text

/-- A letter or digit of ASCII. -/
def isWordChar (c : Char) : Bool := c.isAlphanum

/-- The words of a text, the first of them led by the given characters. -/
def wordsFrom (current : List Char) : List Char → List (List Char)
  | [] => if current.isEmpty then [] else [current]
  | c :: cs =>
    if isWordChar c then wordsFrom (current ++ [c]) cs
    else if current.isEmpty then wordsFrom [] cs
    else current :: wordsFrom [] cs

def words (cs : List Char) : List (List Char) := wordsFrom [] cs

/-- Applies a function to the first character. -/
def mapFirst (f : Char → Char) : List Char → List Char
  | [] => []
  | c :: cs => f c :: cs

def camelCase (s : String) : String :=
  match words s.toList with
  | [] => ""
  | first :: more =>
    String.ofList (mapFirst Char.toLower first ++ (more.map (mapFirst Char.toUpper)).flatten)

end Ramlify.Text
