import Ramlify.Failure
import Ramlify.World.Path

/-!
# Files

The files that can be reached, by where they lie: below the root of the system, below the current
folder, or below one of the folders above it. A folder exists if it was made or if a file lies in
it; the root, the current folder and those above it always exist.
-/

namespace Ramlify

/-- Where a file or a folder lies. -/
structure Location where
  /-- Whether the place is given from the root of the system. -/
  fromRoot : Bool := false
  /-- The number of levels above the current folder from which the place is given. -/
  above : Nat := 0
  parts : List String := []
  deriving DecidableEq, Repr

namespace Location

/-- The folder that a place is in. The root is in itself. -/
def parent (place : Location) : Location :=
  if place.parts.isEmpty then
    if place.fromRoot then place else { place with above := place.above + 1 }
  else { place with parts := place.parts.dropLast }

/-- The place of a name in a folder. -/
def child (place : Location) (name : String) : Location :=
  { place with parts := place.parts ++ [name] }

/-- Where a name starts. -/
def start (path : Path) : Location := { fromRoot := !path.root.isEmpty }

/-- Where a name leads if all of its folders exist. -/
def ofPath (path : Path) : Location :=
  path.parts.foldl (fun place part => if part = ".." then place.parent else place.child part)
    (start path)

/-- Whether a place is a folder that always exists. -/
def isGiven (place : Location) : Bool := place.parts.isEmpty

/-- Whether a place lies in a folder, at any depth. -/
def isWithin (place folder : Location) : Bool :=
  place.fromRoot == folder.fromRoot && place.above == folder.above &&
    folder.parts.isPrefixOf place.parts && folder.parts.length < place.parts.length

/-- Whether a place is below the current folder. -/
def isBelow (place : Location) : Bool := !place.fromRoot && place.above == 0

def name (place : Location) : Path :=
  { root := if place.fromRoot then "/" else ""
    parts := List.replicate place.above ".." ++ place.parts }

end Location

/-- The files by their places, and the folders made. -/
structure Files where
  contents : Entries Location String := []
  folders : List Location := []

/-- What a name leads to. -/
inductive Target where
  | file (place : Location) (content : String)
  | folder (place : Location)
  /-- A place in a folder where nothing is. -/
  | free (place : Location)

namespace Files

/-- The length of a name from which on it is too long, in bytes. -/
def nameLimit : Nat := 4096

/-- The greatest length of a part of a name, in bytes. -/
def partLimit : Nat := 255

/-- Whether there is a folder at a place. -/
def isFolder (files : Files) (place : Location) : Bool :=
  place.isGiven || files.folders.contains place ||
    files.contents.any fun entry => entry.1.isWithin place

def lookUp (files : Files) (place : Location) : Target :=
  match Entries.get? files.contents place with
  | some content => .file place content
  | none => if files.isFolder place then .folder place else .free place

/-- Goes on by one part of a name. -/
def follow (files : Files) (target : Target) (part : String) : Except FileFault Target :=
  match target with
  | .file _ _ => .error .notDirectory
  | .free _ => .error .missing
  | .folder place =>
    if part = ".." then .ok (.folder place.parent)
    else if partLimit < part.utf8ByteSize then .error .nameTooLong
    else .ok (files.lookUp (place.child part))

/-- What a name leads to. -/
def locate (files : Files) (path : Path) : Except FileFault Target :=
  if nameLimit ≤ path.text.utf8ByteSize then .error .nameTooLong
  else path.parts.foldlM files.follow (.folder (Location.start path))

/-- A fault as a failure that shows the name. -/
def failed {α : Type} (path : Path) : Except FileFault α → Outcome α
  | .ok a => .ok a
  | .error fault => .error (.file fault path.shown)

/-- What a name leads to, or a failure. A name without meaning to the system is misused. -/
def find (files : Files) (path : Path) : Outcome Target :=
  if path.text.toList.contains '\x00' then .error (.misuse .content)
  else failed path (files.locate path)

/-! ## Reading -/

/-- The text with all line ends written as line feeds. -/
def lineFeeds : List Char → List Char
  | '\r' :: '\n' :: cs => '\n' :: lineFeeds cs
  | '\r' :: cs => '\n' :: lineFeeds cs
  | c :: cs => c :: lineFeeds cs
  | [] => []

def read (files : Files) (path : Path) : Outcome String := do
  match ← files.find path with
  | .file _ content => return String.ofList (lineFeeds content.toList)
  | .folder _ => .error (.file .isDirectory path.shown)
  | .free _ => .error (.file .missing path.shown)

def isFile (files : Files) (path : Path) : Bool :=
  match files.find path with
  | .ok (.file _ _) => true
  | _ => false

def leadsToFolder (files : Files) (path : Path) : Bool :=
  match files.find path with
  | .ok (.folder _) => true
  | _ => false

/-! ## Writing

What was made before a failure stays, so the files are given back in any case.
-/

/-- Makes a folder under a name that is free. -/
def makeFolder (files : Files) (path : Path) : Files × Outcome Unit :=
  match files.find path with
  | .ok (.free place) => ({ files with folders := files.folders ++ [place] }, .ok ())
  | .ok _ => (files, .error (.file .exists path.shown))
  | .error failure => (files, .error failure)

/-- Accepts the failure to make a folder that is there. -/
def orPresent (path : Path) (made : Files × Outcome Unit) : Files × Outcome Unit :=
  match made with
  | (files, .ok ()) => (files, .ok ())
  | (files, .error failure) =>
    (files, if files.leadsToFolder path then .ok () else .error failure)

/-- Makes a folder and those it is in, as far as they are missing. -/
def ensureParts (files : Files) (root : String) : Nat → List String → Files × Outcome Unit
  | 0, parts => orPresent { root, parts } (files.makeFolder { root, parts })
  | depth + 1, parts =>
    match files.makeFolder { root, parts } with
    | (files, .error (.file .missing _)) =>
      match files.ensureParts root depth parts.dropLast with
      | (files, .ok ()) => orPresent { root, parts } (files.makeFolder { root, parts })
      | (files, .error failure) => (files, .error failure)
    | made => orPresent { root, parts } made

/-- Makes a folder and those it is in, as far as they are missing. -/
def ensureFolder (files : Files) (path : Path) : Files × Outcome Unit :=
  files.ensureParts path.root path.parts.length path.parts

def put (files : Files) (place : Location) (content : String) : Files :=
  { files with contents := Entries.put files.contents place content }

def write (files : Files) (path : Path) (content : String) : Files × Outcome Unit :=
  match files.find path with
  | .ok (.file place _) => (files.put place content, .ok ())
  | .ok (.free place) => (files.put place content, .ok ())
  | .ok (.folder _) => (files, .error (.file .isDirectory path.shown))
  | .error failure => (files, .error failure)

def ofNamed (named : List (String × String)) : Files :=
  { contents := Entries.ofList (named.map fun file =>
      (Location.ofPath (Path.parse file.1), file.2)) }

/-- The files that are new or have another content than before. -/
def changedSince (files before : Files) : Entries Location String :=
  files.contents.filter fun file => Entries.get? before.contents file.1 != some file.2

/-- The changed files below the current folder by their names, in the order of the names. -/
def changedNames (files before : Files) : Entries String String :=
  let below := (files.changedSince before).filter fun file => file.1.isBelow
  (below.map fun file => (file.1.name.text, file.2)).mergeSort fun a b => decide (a.1 ≤ b.1)

end Files

end Ramlify
