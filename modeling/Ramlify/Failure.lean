import Ramlify.Json.Fault
import Ramlify.Value

/-!
# Failures

Everything that can go wrong between a source text and a written document, by cause. The words of a
failure that is shown to a user are in `Failure.message`.

A `Misuse` arises where a description holds a value of another type than the one needed. It has no
words of its own and is not reported by the command line as a failure of the conversion.
-/

namespace Ramlify

/-- A use that the type or the content of a value does not allow. -/
inductive Misuse where
  /-- A member, a part or the letters are asked of a value that has none. -/
  | operation
  /-- A value of a wrong type is searched, walked through, changed, or taken as a key. -/
  | type
  /-- A part is asked of an empty text or list. -/
  | position
  /-- A text or a number is of the right type but not of the right form. -/
  | content
  /-- A word is none of those known. -/
  | word
  /-- A number is too large. -/
  | magnitude
  /-- A value is asked for that is made of itself, without end. -/
  | endless
  deriving DecidableEq, Repr

/-- What is wrong with a member of a description that is read into a typed record. -/
inductive Mismatch where
  | notText
  | notList
  | notObject
  | notRecord
  | missing
  | notTruth
  | unclearTruth
  deriving DecidableEq, Repr

/-- A mismatch and the path to it, outermost name first. -/
structure Misfit where
  path : List String
  mismatch : Mismatch
  deriving DecidableEq, Repr

/-- What is wrong with a file name. -/
inductive FileFault where
  | missing
  | notDirectory
  | isDirectory
  | exists
  | nameTooLong
  deriving DecidableEq, Repr

/-- What can go wrong. -/
inductive Failure where
  /-- A text is not JSON. -/
  | notJson (text : List Char) (fault : Json.Fault)
  /-- Something other than a text is read as JSON. -/
  | notText (kind : Value.Kind)
  /-- Nothing was loaded. -/
  | nothingLoaded
  /-- A collection is not an object. -/
  | notCollection
  /-- No version of RAML has this tag. -/
  | unknownVersion (tag : String)
  /-- A text is taken for a format that is not read. -/
  | notImportable (tag : String)
  /-- Documents of this format are not read. -/
  | noImporter (tag : String)
  /-- Documents of this format are not written. -/
  | noExporter (tag : String)
  /-- RAML is not written in this form. -/
  | noSerialization (form : String)
  /-- No project was loaded. -/
  | noProject
  /-- An operation is left out by an importer, an exporter or a version. -/
  | notSupplied (operation : String)
  /-- A description does not fit the records it is read into. -/
  | invalid (misfits : List Misfit)
  /-- A file is not read or not written. -/
  | file (fault : FileFault) (name : String)
  /-- A page is out of reach. -/
  | unreachable (url : String)
  /-- A page is answered with a status of 400 or more. -/
  | refused (status : Nat) (reason url : String)
  /-- A value is misused. -/
  | misuse (misuse : Misuse)

def Value.Kind.words : Value.Kind → String
  | .null => "NoneType"
  | .bool => "bool"
  | .int => "int"
  | .float => "float"
  | .str => "str"
  | .list => "list"
  | .obj => "dict"

/-- The number and the words of a fault of a file name. -/
def FileFault.words : FileFault → String
  | .missing => "[Errno 2] No such file or directory"
  | .notDirectory => "[Errno 20] Not a directory"
  | .isDirectory => "[Errno 21] Is a directory"
  | .exists => "[Errno 17] File exists"
  | .nameTooLong => "[Errno 36] File name too long"

namespace Failure

/-- A failure in words. File names stand there as they are to be shown. -/
def message : Failure → String
  | notJson text fault => "Invalid JSON: " ++ fault.message text
  | notText kind =>
    "Invalid JSON: the JSON object must be str, bytes or bytearray, not " ++ kind.words
  | nothingLoaded => "No source data loaded"
  | notCollection => "Postman collection must be a JSON object"
  | unknownVersion tag => "Unsupported RAML version: " ++ tag
  | notImportable tag => "Cannot import documents detected as '" ++ tag ++ "'."
  | noImporter tag => "Cannot import from " ++ tag
  | noExporter tag => "Cannot export to " ++ tag
  | noSerialization form => "RAML does not support " ++ form ++ " format"
  | noProject => "No project loaded"
  | notSupplied operation => operation ++ " method not implemented"
  | invalid _ => ""
  | file fault name => fault.words ++ ": " ++ name
  | unreachable url => "unreachable " ++ url
  | refused status reason url =>
    toString status ++ (if status < 500 then " Client" else " Server") ++ " Error: " ++ reason ++
      " for url: " ++ url
  | misuse _ => ""

/-- Whether the command line reports a failure in words: those of the conversion itself, and those
of files and pages. -/
def isReported : Failure → Bool
  | notSupplied _ => false
  | invalid _ => false
  | misuse _ => false
  | _ => true

end Failure

/-- A result or a failure. -/
abbrev Outcome (α : Type) := Except Failure α

end Ramlify
