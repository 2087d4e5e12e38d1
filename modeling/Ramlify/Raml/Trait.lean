import Ramlify.Raml.Body

/-!
# Traits

What several operations have in common is declared once as a trait. The names of traits are in camel
case, in their declarations and where operations refer to them.
-/

namespace Ramlify.Raml

/-- The parameters that a trait declares under a name, unless its schema describes nothing. A schema
that describes something else than properties declares none. -/
def traitParameters (name : String) (schema : Members) : Outcome Members := do
  if Schema.isEmptyObject schema then return []
  return [(name, (← namedParametersOf schema).getD .null)]

def traitFields (version : Version) (mediaType : String) (trait : Trait) : Outcome Members := do
  let query ← traitParameters "queryParameters" trait.query
  let headers ← traitParameters "headers" trait.headers
  let responses ← responsesByCode version mediaType trait.responses
  return Members.putGiven (query ++ headers) "responses" (.obj responses)

def traitDeclarations (version : Version) (mediaType : String) (traits : List Trait) :
    Outcome Value :=
  traits.foldlM (fun declared trait => do
    version.declareTrait trait.name (.obj (← traitFields version mediaType trait)) declared)
    version.noTraits

/-- The declared names of the traits with some ids. Ids of no trait are left out, and of two traits
with one id the later one counts. -/
def traitNames (traits : List Trait) (ids : List String) : List String :=
  let names := Entries.ofList (traits.map fun trait => (trait.id, trait.name))
  ids.filterMap fun id => (Entries.get? names (some id)).map Text.camelCase

end Ramlify.Raml
