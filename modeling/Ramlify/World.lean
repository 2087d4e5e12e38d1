import Ramlify.Url
import Ramlify.World.Files

/-!
# Sources

Where the text of a description comes from: a file, or a page of the web.
-/

namespace Ramlify

/-- How a page is answered. -/
structure Page where
  status : Nat := 200
  reason : String := "OK"
  text : String := ""

/-- The files and the pages that can be reached. -/
structure World where
  files : Files := {}
  pages : Entries String Page := []

namespace World

def fetch (world : World) (url : String) : Outcome String :=
  match Entries.get? world.pages url with
  | none => .error (.unreachable url)
  | some page =>
    if 400 ≤ page.status && page.status < 600 then .error (.refused page.status page.reason url)
    else .ok page.text

/-- The text of a source, which is the address of a page or else the name of a file. -/
def acquire (world : World) (source : String) : Outcome String := do
  if ← Url.isPage source then world.fetch source else world.files.read (Path.parse source)

end World

end Ramlify
