import Ramlify.Access
import Ramlify.Json
import Ramlify.Model.Fit
import Ramlify.Unicode.Lowercase

/-!
# Requests

The parts of a request as they are stored: the headers, the query and the path parameters are JSON
texts of object schemas, and so is the body of each body entry. Reading a part parses its text;
writing it stores the text of a value, and a text as it is. A query or path parameters that were
never stored read as the empty object, and that text is stored when they are first read.
-/

namespace Ramlify

/-- The stored parts of a request. -/
structure Request where
  path : String := ""
  method : String := ""
  headers : String := "{}"
  query : Option String := none
  pathParams : Option String := none
  bodies : List Members := []
  deriving Inhabited

namespace Request

/-- The parts of a request. -/
inductive Part where
  | path
  | method
  | headers
  | query
  | pathParams
  | body
  deriving DecidableEq, Repr

/-- The stored text, with the text of the empty object for one that is missing or empty. -/
def filled (text : Option String) : String :=
  match text with
  | none => "{}"
  | some s => if s.isEmpty then "{}" else s

/-- The first body entry, or no members. -/
def body (r : Request) : Members := r.bodies.headD []

def afterReading (r : Request) : Part → Request
  | .query => { r with query := some (filled r.query) }
  | .pathParams => { r with pathParams := some (filled r.pathParams) }
  | _ => r

def read (r : Request) : Part → Outcome Value
  | .path => .ok (.str r.path)
  | .method => .ok (.str r.method)
  | .headers => Json.parse r.headers
  | .query => Json.parse (filled r.query)
  | .pathParams => Json.parse (filled r.pathParams)
  | .body => .ok (.obj r.body)

/-- Stores the method in lower case. -/
def setMethod (r : Request) (method : String) : Request :=
  { r with method := Unicode.lower method }

def setHeaders (r : Request) (v : Value) : Request := { r with headers := Json.stored v }

def setQuery (r : Request) (v : Value) : Request := { r with query := some (Json.stored v) }

def setPathParams (r : Request) (v : Value) : Request :=
  { r with pathParams := some (Json.stored v) }

/-- Adds a body entry. Its body is stored as a text. -/
def appendBody (r : Request) (entry : Members) : Request :=
  let schema := (Entries.get? entry "body").getD (.obj [])
  { r with bodies := r.bodies ++ [Entries.put entry "body" (.str (Json.stored schema))] }

/-- Writes a part. The body has no place of its own to write to. -/
def write (r : Request) (part : Part) (v : Value) : Outcome Request :=
  match part with
  | .path => do return { r with path := String.ofList (← v.letters) }
  | .method => do return r.setMethod (String.ofList (← v.letters))
  | .headers => .ok (r.setHeaders v)
  | .query => .ok (r.setQuery v)
  | .pathParams => .ok (r.setPathParams v)
  | .body => .error (.misuse .operation)

def pairOf (v : Value) : Outcome (Scalar × Value) := do
  match ← v.elements with
  | [key, member] => return (← key.key, member)
  | _ => .error (.misuse .content)

/-- The members that an object has or a list of pairs gives. -/
def membersOf (v : Value) : Outcome Members := do
  match v with
  | .obj members => return members
  | v =>
    let pairs ← (← v.elements).mapM pairOf
    return (Entries.ofList pairs).map fun pair => (Json.nameOf pair.1, pair.2)

/-- Adds the body entry that a value gives. -/
def appendBodyOf (r : Request) (v : Value) : Outcome Request := do
  return r.appendBody (← membersOf v)

/-- The shape of stored parts. The method is in lower case. -/
def shape : Shape Request := Shape.record fun m =>
  Request.mk <$> Shape.field m "path" Shape.text ""
    <*> Shape.field m "method" (fun v => (Shape.text v).map Unicode.lower) ""
    <*> Shape.field m "headers" Shape.text "{}"
    <*> Shape.field m "query_string" (Shape.optional Shape.text) none
    <*> Shape.field m "path_params" (Shape.optional Shape.text) none
    <*> Shape.field m "bodies" (Shape.list Shape.object) []

/-- Replaces a stored part as it is. -/
def store (r : Request) (part : Part) (v : Value) : Outcome Request :=
  match part with
  | .path => return { r with path := ← (Shape.text v).outcome }
  | .method => return { r with method := ← (Shape.text v).outcome }
  | .headers => return { r with headers := ← (Shape.text v).outcome }
  | .query => return { r with query := ← (Shape.optional Shape.text v).outcome }
  | .pathParams => return { r with pathParams := ← (Shape.optional Shape.text v).outcome }
  | .body => return { r with bodies := ← (Shape.list Shape.object v).outcome }

end Request

/-- A request with a name. -/
structure Entry where
  id : Option String := none
  name : String := ""
  consumes : List String := []
  request : Request := {}
  deriving Inhabited

def Entry.fields (m : Members) : Fit Entry :=
  Entry.mk <$> Shape.field m "id" (Shape.optional Shape.text) none
    <*> Shape.field m "name" Shape.text ""
    <*> Shape.field m "consumes" (Shape.list Shape.text) []
    <*> Shape.field m "request" Request.shape {}

end Ramlify
