import Ramlify.Raml.Version
import Ramlify.Yaml.Writer

/-!
# Documents

A definition as a text: a line that names the version, then YAML. A type that stands in a file of
its own is a tag of RAML, so the quotes around it are taken away.
-/

namespace Ramlify.Raml

/-- Whether a text begins with the mark of a file and has a quote after it. -/
def opensInclude (cs : List Char) : Bool :=
  Schema.includeMark.toList.isPrefixOf cs && cs.contains '\''

/-- Takes away the quotes around marks of files. The first argument tells whether the text before
is such a mark, whose quote has still to come. -/
def unquoteIncludes : Bool → List Char → List Char
  | _, [] => []
  | true, c :: cs =>
    if c = '\'' then unquoteIncludes false cs else c :: unquoteIncludes true cs
  | false, c :: cs =>
    if c = '\'' ∧ opensInclude cs then unquoteIncludes true cs else c :: unquoteIncludes false cs

def document (version : Version) (definition : Members) : String :=
  "#%RAML " ++ version.tag ++ "\n" ++
    String.ofList (unquoteIncludes false (Yaml.writeChars definition))

end Ramlify.Raml
