import Ramlify.Postman.Collection

/-!
# Importers

An importer holds the description that was read last. A text that cannot be read leaves it as it
was. The null of JSON counts as no description.

A project is made of the description each time it is asked for. An importer has no field for the
project that it made last: it would be set before it is given back, and never be read otherwise.
-/

namespace Ramlify

/-- What an importer holds. -/
structure Importer where
  data : Value := .null

namespace Importer

def load (importer : Importer) (text : Value) : Importer × Outcome Unit :=
  match Json.parseStored text with
  | .ok data => ({ importer with data }, .ok ())
  | .error failure => (importer, .error failure)

def loaded (importer : Importer) : Outcome Value :=
  match importer.data with
  | .null => .error .nothingLoaded
  | data => .ok data

/-- The project that the description gives, as a Postman collection. -/
def project (importer : Importer) : Outcome Project := do
  Postman.project (← importer.loaded)

end Importer

end Ramlify
