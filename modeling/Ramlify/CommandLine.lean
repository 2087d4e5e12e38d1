import Ramlify.CommandLine.Arguments
import Ramlify.Converter
import Ramlify.Detect

/-!
# Command line

What a command does: what it prints, which files it leaves, and how it ends. Failures of the
conversion are reported in words. A failure to write the result, and the misuse of a value in a
description, end the command without a report.
-/

namespace Ramlify.CommandLine

/-- The end of a command. -/
structure Run where
  exitCode : Nat := 0
  /-- A failure that ended the command without a report. -/
  failure : Option Failure := none
  printed : String := ""
  logged : String := ""
  files : Files

namespace Run

def failed (files : Files) (logged : String) (failure : Failure) : Run :=
  if failure.isReported then
    { exitCode := 1, logged := logged ++ "Error: " ++ failure.message ++ "\n", files }
  else { exitCode := 1, failure := some failure, logged, files }

/-- The end of a command that could not leave its result. -/
def broken (files : Files) (logged : String) (failure : Failure) : Run :=
  { exitCode := 1, failure := some failure, logged, files }

end Run

/-! ## Converting -/

/-- The format of a text, found out unless it is given. -/
def formatOf (tag text : String) : Outcome String :=
  if tag ≠ autoFormat then .ok tag
  else do
    let detected ← Detected.ofText text
    if detected.tag ∈ Format.sources then return detected.tag
    else .error (.notImportable detected.tag)

def convertText (source target text : String) : Outcome String := do
  let converter ← Converter.between source target
  let (converter, loaded) := converter.loadText (.str text)
  let _ ← loaded
  (converter.pass (Format.usualForm target)).2

/-- What is logged before a conversion. -/
def startLine (c : Conversion) (format : String) : String :=
  "Converting " ++ c.source ++ " (" ++ format ++ " -> " ++ c.targetFormat ++ ")...\n"

/-- The name of the file for the result. A name without meaning to the system is misused. -/
def outputPath (c : Conversion) : Outcome (Option Path) :=
  match c.output with
  | none => .ok none
  | some name =>
    if name.toList.contains '\x00' then .error (.misuse .content) else .ok (some (Path.parse name))

/-- Writes a result into a file, making the folders that it needs. -/
def save (files : Files) (path : Path) (result : String) : Files × Outcome Unit :=
  match files.ensureFolder path.parent with
  | (files, .ok ()) => files.write path result
  | (files, .error failure) => (files, .error failure)

/-- Leaves a result: in a file, or printed. -/
def leave (files : Files) (logged : String) (path : Option Path) (result : String) : Run :=
  match path with
  | none => { printed := result ++ "\n", logged, files }
  | some path =>
    match save files path result with
    | (files, .ok ()) => { logged := logged ++ "Saved to " ++ path.text ++ "\n", files }
    | (files, .error failure) => Run.broken files logged failure

def convert (world : World) (c : Conversion) : Run :=
  match outputPath c with
  | .error failure => Run.broken world.files "" failure
  | .ok path =>
    let read := do
      let text ← world.acquire c.source
      return (text, ← formatOf c.sourceFormat text)
    match read with
    | .error failure => Run.failed world.files "" failure
    | .ok (text, format) =>
      let logged := startLine c format
      match convertText format c.targetFormat text with
      | .error failure => Run.failed world.files logged failure
      | .ok result => leave world.files logged path result

/-! ## Listing formats -/

/-- A text with blanks after it, up to a width. -/
def padded (width : Nat) (s : String) : String :=
  s ++ String.ofList (List.replicate (width - s.length) ' ')

def formatLine (format : Format) : String :=
  let directions := (if format.isSource then ["import"] else []) ++
    (if format.isTarget then ["export"] else [])
  padded 10 format.tag ++ " " ++ padded 10 format.name ++ " " ++
    padded 6 (", ".intercalate format.forms) ++ " " ++ "/".intercalate directions ++ "\n"

/-! ## Running -/

def usage : String :=
  "Usage: convert SOURCE [--from FORMAT] [--to FORMAT] [-o FILE] [-v]\n       formats\n"

def execute (world : World) : Command → Run
  | .convert c => convert world c
  | .formats => { printed := String.join (Format.all.map formatLine), files := world.files }
  | .help => { printed := usage, files := world.files }

def wrongUsage : Nat := 2

/-- Runs the command that arguments give. -/
def run (world : World) (arguments : List String) : Run :=
  match parse arguments with
  | none => { exitCode := wrongUsage, files := world.files }
  | some command => execute world command

end Ramlify.CommandLine
