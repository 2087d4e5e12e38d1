import Ramlify.Failure
import Ramlify.Json.Reader
import Ramlify.Json.Writer

/-!
# JSON texts as values

`Json.parse` reads a text, `Json.parseStored` reads what a stored value holds, `Json.stored` writes
a value to be stored. The last two are each other's inverse on values that are no texts.
-/

namespace Ramlify.Json

/-- The failure that a fault of a text is. -/
def Fault.toFailure (text : List Char) (fault : Fault) : Failure :=
  if fault.cause = .tooManyDigits then .misuse .content else .notJson text fault

def parse (text : String) : Outcome Value :=
  match read text.toList with
  | .ok v => .ok v
  | .error fault => .error (fault.toFailure text.toList)

def parseStored : Value → Outcome Value
  | .str text => parse text
  | v => .error (.notText v.kind)

/-- The member name that a key becomes. -/
def nameOf : Scalar → String
  | .null => "null"
  | .bool b => if b then "true" else "false"
  | .int i => String.ofList (intText i)
  | .float x => floatStyle.write x
  | .str s => s

end Ramlify.Json
