import Ramlify.Yaml.Quoting

/-!
# Writing YAML

Values in block style, two blanks for each level. The items of a list that is the value of a member
stand at the indentation of the member itself. Empty lists and objects are written with brackets.
Lines are never folded.
-/

namespace Ramlify.Yaml

/-- Floating-point numbers always have a point, so that they are read back as such. -/
def floatStyle : FloatStyle where
  least := -4
  bound := 16
  afterLoneDigit := ".0"
  infinity := ".inf"
  negativeInfinity := "-.inf"
  undefined := ".nan"

/-- The names that stand on one line before a colon. Other names are marked with a question mark. -/
def isSimpleName (cs : List Char) : Bool :=
  !cs.isEmpty && !cs.any isBreak && cs.length ≤ 122

/-- A value that takes no lines of its own. Lists and objects are so when they are empty. -/
def inlineText (indent : Nat) : Value → List Char
  | .null => "null".toList
  | .bool true => "true".toList
  | .bool false => "false".toList
  | .int i => Json.intText i
  | .float x => (floatStyle.write x).toList
  | .str s => scalarText indent s.toList
  | .list _ => ['[', ']']
  | .obj _ => ['\x7b', '\x7d']

def lineStart (indent : Nat) : List Char := '\n' :: List.replicate indent ' '

/-- A name with what stands before its value. -/
def nameText (indent : Nat) (name : String) : List Char :=
  let cs := name.toList
  if isSimpleName cs then scalarText (indent + 2) cs ++ [':']
  else '?' :: ' ' :: scalarText (indent + 2) cs ++ lineStart indent ++ [':']

mutual

/-- A value after a mark at some indentation. On the line of the mark (`tight`), a collection begins
right after it; after a name, it begins on the next line. -/
def valueText (tight : Bool) (indent : Nat) : Value → List Char
  | .list (item :: rest) =>
    let inner := if tight then indent + 2 else indent
    (if tight then [' '] else lineStart inner) ++ '-' :: valueText true inner item ++
      itemsText inner rest
  | .obj ((name, member) :: rest) =>
    let inner := indent + 2
    (if tight then [' '] else lineStart inner) ++ nameText inner name ++
      valueText (!isSimpleName name.toList) inner member ++ membersText inner rest
  | v => ' ' :: inlineText (indent + 2) v

/-- Items of a list, each on a line of its own. -/
def itemsText (indent : Nat) : List Value → List Char
  | [] => []
  | item :: rest => lineStart indent ++ '-' :: valueText true indent item ++ itemsText indent rest

/-- Members of an object, each on a line of its own. -/
def membersText (indent : Nat) : List (String × Value) → List Char
  | [] => []
  | (name, member) :: rest =>
    lineStart indent ++ nameText indent name ++
      valueText (!isSimpleName name.toList) indent member ++ membersText indent rest

end

/-- The text of an object as a document. -/
def writeChars (members : Members) : List Char :=
  match members with
  | [] => ['\x7b', '\x7d', '\n']
  | _ => (membersText 0 members).drop 1 ++ ['\n']

end Ramlify.Yaml
