/-!
# Characters

The classes of characters that YAML tells apart.
-/

namespace Ramlify.Yaml

def isBreak (c : Char) : Bool :=
  c == '\n' || c == '\u0085' || c == '\u2028' || c == '\u2029'

/-- The characters that may stand after the mark of a collection. -/
def isGap (c : Char) : Bool :=
  c == '\x00' || c == ' ' || c == '\t' || c == '\r' || isBreak c

/-- The characters that may occur in a document. -/
def isReadable (c : Char) : Bool :=
  let n := c.toNat
  n == 9 || n == 10 || n == 13 || (0x20 ≤ n && n ≤ 0x7E) || n == 0x85 ||
    (0xA0 ≤ n && n ≤ 0xFFFD) || 0x10000 ≤ n

/-- The characters that stand for themselves in a written document. -/
def isShown (c : Char) : Bool :=
  let n := c.toNat
  n == 10 || (0x20 ≤ n && n ≤ 0x7E) || n == 0x85 ||
    (0xA0 ≤ n && n ≤ 0xFFFD && n != 0xFEFF) || (0x10000 ≤ n && n < 0x10FFFF)

/-- Whether nothing or a gap comes first. -/
def gapFirst : List Char → Bool
  | [] => true
  | c :: _ => isGap c

def endsLine : List Char → Bool
  | [] => true
  | c :: _ => c == '\r' || isBreak c

/-- Whether a line ends here or a blank comes. -/
def endsWord : List Char → Bool
  | [] => true
  | c :: _ => c == ' ' || c == '\r' || isBreak c

/-- The characters of names of anchors, tags and directives. -/
def isNameChar (c : Char) : Bool := c.isAlphanum || c == '-' || c == '_'

end Ramlify.Yaml
