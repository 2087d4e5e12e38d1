import Ramlify.Importer
import Ramlify.Raml.Exporter

/-!
# Formats

The formats of descriptions: which are read, which are written, and in which forms.
-/

namespace Ramlify

/-- A format. The first of its forms is the usual one. -/
structure Format where
  tag : String
  name : String
  forms : List String
  isSource : Bool := false
  isTarget : Bool := false

namespace Format

def all : List Format :=
  [{ tag := "postman", name := "Postman", forms := ["json"], isSource := true },
   { tag := "raml08", name := "RAML 0.8", forms := ["yaml"], isTarget := true },
   { tag := "raml10", name := "RAML 1.0", forms := ["yaml"], isTarget := true }]

/-- The tags of the formats that are read. -/
def sources : List String := (all.filter (·.isSource)).map (·.tag)

/-- The tags of the formats that are written. -/
def targets : List String := (all.filter (·.isTarget)).map (·.tag)

/-- The usual form of the format of a tag. -/
def usualForm (tag : String) : String :=
  ((all.find? fun format => format.tag == tag).bind (·.forms.head?)).getD ""

/-- A new importer for the format of a tag. -/
def importerOf (tag : String) : Outcome Importer :=
  if tag = "postman" then .ok {} else .error (.noImporter tag)

/-- The version of RAML that the format of a tag is. -/
def versionOf (tag : String) : Outcome Raml.Version :=
  if tag = "raml08" then .ok .v08
  else if tag = "raml10" then .ok .v10
  else .error (.noExporter tag)

/-- A new exporter for the format of a tag. -/
def exporterOf (tag : String) : Outcome Raml.Exporter := do return { version := ← versionOf tag }

end Format

end Ramlify
