import Ramlify.Text.Hex
import Ramlify.Text.Split
import Ramlify.Unicode.Printable

/-!
# File names

A file name is a series of parts between slashes. Empty parts and parts that are a single point do
not count. A name may start at the root, which is written with one slash or with two.
-/

namespace Ramlify

/-- A file name. -/
structure Path where
  root : String := ""
  parts : List String := []
  deriving DecidableEq, Repr

namespace Path

/-- The root that is written with so many slashes. -/
def rootOf : Nat → String
  | 0 => ""
  | 2 => "//"
  | _ => "/"

def parse (s : String) : Path :=
  let cs := s.toList
  { root := rootOf (cs.takeWhile (· == '/')).length
    parts := ((Text.split '/' cs).map String.ofList).filter fun part => part != "" && part != "." }

def text (path : Path) : String :=
  if path.root.isEmpty && path.parts.isEmpty then "."
  else path.root ++ "/".intercalate path.parts

/-- The name of the folder that a file is in. -/
def parent (path : Path) : Path := { path with parts := path.parts.dropLast }

def quoteChar (quote c : Char) : List Char :=
  if c = quote ∨ c = '\\' then ['\\', c]
  else if c = '\n' then ['\\', 'n']
  else if c = '\r' then ['\\', 'r']
  else if c = '\t' then ['\\', 't']
  else if Unicode.isPrintable c then [c]
  else if c.toNat ≤ 0xFF then '\\' :: 'x' :: Text.hexText 2 c.toNat
  else if c.toNat ≤ 0xFFFF then '\\' :: 'u' :: Text.hexText 4 c.toNat
  else '\\' :: 'U' :: Text.hexText 8 c.toNat

/-- A name within quotes, as messages show it. Double quotes are used for a name with single quotes
and no double ones. -/
def shown (path : Path) : String :=
  let cs := path.text.toList
  let quote := if cs.contains '\'' && !cs.contains '"' then '"' else '\''
  String.ofList (quote :: cs.flatMap (quoteChar quote) ++ [quote])

end Path

end Ramlify
