import Ramlify.Raml.Document
import Ramlify.Raml.Reading

/-!
# Exporters

An exporter writes the project that was loaded last in one version of RAML. It keeps the definition
that it built last: also when the document is asked for in a form that RAML is not written in, but
not when a definition cannot be built. What was filled in where the project was read stays in it in
either case.
-/

namespace Ramlify.Raml

/-- What an exporter holds. -/
structure Exporter where
  version : Version
  project : Option Project := none
  data : Option Members := none

namespace Exporter

/-- A new exporter for the version of a tag. -/
def ofTag (tag : String) : Outcome Exporter := do return { version := ← Version.ofTag tag }

def load (exporter : Exporter) (project : Project) : Exporter :=
  { exporter with project := some project }

def serialization : String := "yaml"

/-- The document of a definition in some form. -/
def serialize (version : Version) (form : String) (definition : Members) : Outcome String :=
  if form = serialization then .ok (document version definition)
  else .error (.noSerialization form)

def write (exporter : Exporter) (form : String) : Exporter × Outcome String :=
  match exporter.project with
  | none => (exporter, .error .noProject)
  | some project =>
    let after := exporter.load (afterBuilding exporter.version project)
    match definition exporter.version project with
    | .error failure => (after, .error failure)
    | .ok data => ({ after with data := some data }, serialize exporter.version form data)

end Exporter

end Ramlify.Raml
