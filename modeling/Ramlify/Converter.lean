import Ramlify.Format
import Ramlify.World

/-!
# Converters

A converter reads descriptions in one format and writes them in another. It holds the description
that was read last, until another one is read.
-/

namespace Ramlify

/-- An importer that feeds an exporter. -/
structure Converter where
  source : String
  target : String
  importer : Importer
  exporter : Raml.Exporter

namespace Converter

/-- A new converter between the formats of two tags. -/
def between (source target : String) : Outcome Converter := do
  let importer ← Format.importerOf source
  let exporter ← Format.exporterOf target
  return { source, target, importer, exporter }

/-! ## Loading -/

def loadText (converter : Converter) (text : Value) : Converter × Outcome Unit :=
  let (importer, outcome) := converter.importer.load text
  ({ converter with importer }, outcome)

/-- Reads a text that has still to be got. -/
def loadAcquired (converter : Converter) (text : Outcome String) : Converter × Outcome Unit :=
  match text with
  | .ok text => converter.loadText (.str text)
  | .error failure => (converter, .error failure)

def loadSource (world : World) (converter : Converter) (source : String) :
    Converter × Outcome Unit :=
  converter.loadAcquired (world.acquire source)

def loadPath (world : World) (converter : Converter) (path : Path) : Converter × Outcome Unit :=
  converter.loadSource world path.text

/-- Whether a text is the name of a file. A text of several lines is not. -/
def isFileName (world : World) (text : String) : Bool :=
  !text.toList.contains '\n' && world.files.isFile (Path.parse text)

/-- What a text stands for: the text of the page or file that it names, or itself. -/
def resolve (world : World) (text : String) : Outcome String := do
  if (← Url.isPage text) || isFileName world text then world.acquire text else return text

def load (world : World) (converter : Converter) (text : String) : Converter × Outcome Unit :=
  converter.loadAcquired (resolve world text)

/-! ## Converting -/

/-- Writes the project that an importer gives. -/
def pass (converter : Converter) (form : String) : Converter × Outcome String :=
  match converter.importer.project with
  | .error failure => (converter, .error failure)
  | .ok project =>
    let (exporter, outcome) := (converter.exporter.load project).write form
    ({ converter with exporter }, outcome)

/-- The form to write, which is the usual one unless another is named. -/
def formFor (converter : Converter) (form : Option String) : String :=
  match form with
  | none => Format.usualForm converter.target
  | some form => if form.isEmpty then Format.usualForm converter.target else form

/-- Converts what was just read, if it could be read. -/
def passLoaded (loaded : Converter × Outcome Unit) (form : Option String) :
    Converter × Outcome String :=
  match loaded with
  | (converter, .error failure) => (converter, .error failure)
  | (converter, .ok ()) => converter.pass (converter.formFor form)

/-- Converts what was read last, or what a text stands for. -/
def convert (world : World) (converter : Converter) (text form : Option String) :
    Converter × Outcome String :=
  match text with
  | none => converter.pass (converter.formFor form)
  | some text => passLoaded (converter.load world text) form

/-- Converts what a file holds. -/
def convertPath (world : World) (converter : Converter) (path : Path) (form : Option String) :
    Converter × Outcome String :=
  passLoaded (converter.loadPath world path) form

end Converter

end Ramlify
