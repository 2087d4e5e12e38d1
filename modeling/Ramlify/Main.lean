import Ramlify.CommandLine

/-!
# Program

The command line over the files of the system. Pages of the web are out of reach.
-/

namespace Ramlify.Program

def namesOf (arguments : List String) : List String :=
  match CommandLine.parse arguments with
  | some (.convert c) => c.source :: c.output.toList
  | _ => []

def look (files : Files) (name : String) : IO Files := do
  let place := Location.ofPath (Path.parse name)
  try
    return files.put place (← IO.FS.readFile name)
  catch
    | .inappropriateType .. => return { files with folders := files.folders ++ [place] }
    | _ => return files

/-- Writes a file with the folders that it needs. -/
def writeFile (path : Path) (content : String) : IO Unit := do
  IO.FS.createDirAll path.parent.text
  IO.FS.writeFile path.text content

/-- Runs the command that arguments give. -/
def start (arguments : List String) : IO UInt32 := do
  let files ← (namesOf arguments).foldlM look {}
  let run := CommandLine.run { files } arguments
  for place in run.files.folders do
    unless files.folders.contains place do IO.FS.createDirAll place.name.text
  for file in run.files.changedSince files do
    writeFile file.1.name file.2
  IO.print run.printed
  IO.eprint run.logged
  if run.failure.isSome then IO.eprintln "The description cannot be converted."
  return UInt32.ofNat run.exitCode

end Ramlify.Program

def main (arguments : List String) : IO UInt32 := Ramlify.Program.start arguments
