import Ramlify.Failure

/-!
# Annotations

What RAML has no words for is kept in annotations. The kinds that were written are recorded, in the
order in which they were first written, so that each is declared once.
-/

namespace Ramlify.Raml

/-- The kinds of annotations written so far. Where annotations are not enabled none is written. -/
structure Annotations where
  enabled : Bool := true
  kinds : List String := []
  deriving DecidableEq, Repr, Inhabited

def declaredKind (kind : String) : String := "oas-" ++ kind

/-- The member under which an annotation is written. -/
def annotationName (kind : String) : String := "(" ++ declaredKind kind ++ ")"

def objectType (properties : Members) : Value := .obj [("properties", .obj properties)]

/-- The types of the kinds that are known. Others can hold anything. -/
def knownKinds : Entries String Value :=
  [("oas-tags", .str "string[]"),
   ("oas-deprecated", .str "boolean"),
   ("oas-summary", .str "string"),
   ("oas-allowEmptyValue", .str "boolean"),
   ("oas-exclusiveMaximum", .str "boolean"),
   ("oas-exclusiveMinimum", .str "boolean"),
   ("oas-collectionFormat", .str "string"),
   ("oas-paths", .str "any"),
   ("oas-externalDocs", objectType [("description?", .str "string"), ("url", .str "string")]),
   ("oas-info", objectType
     [("termsOfService?", .str "string"),
      ("contact?", objectType
        [("name?", .str "string"), ("url?", .str "string"), ("email?", .str "string")]),
      ("license?", objectType [("name?", .str "string"), ("url?", .str "string")])]),
   ("oas-tags-definition", .obj
     [("type", .str "array"),
      ("items", objectType
        [("name", .str "string"),
         ("description?", .str "string"),
         ("externalDocs?", objectType
           [("url", .str "string"), ("description?", .str "string")])])])]

mutual

/-- The kinds of annotations that occur as names of members at any depth. -/
def occurringKinds : Value → List String
  | .list items => occurringInItems items
  | .obj members => occurringInMembers members
  | _ => []

/-- The kinds that occur in the items of a list. -/
def occurringInItems : List Value → List String
  | [] => []
  | item :: rest => occurringKinds item ++ occurringInItems rest

/-- The kinds that occur in members and as their names. -/
def occurringInMembers : List (String × Value) → List String
  | [] => []
  | (name, member) :: rest =>
    (kindOfName? name).toList ++ occurringKinds member ++ occurringInMembers rest
where
  /-- The kind that a name of a member stands for. -/
  kindOfName? (name : String) : Option String :=
    if name.startsWith "(oas-" && name.endsWith ")" then
      some (String.ofList ((name.toList.drop 1).dropLast))
    else none

end

namespace Annotations

def has (a : Annotations) (kind : String) : Bool := a.kinds.contains (declaredKind kind)

def record (a : Annotations) (kind : String) : Annotations :=
  if a.has kind then a else { a with kinds := a.kinds ++ [declaredKind kind] }

/-- Writes an annotation into an object. -/
def annotate (a : Annotations) (target : Members) (kind : String) (v : Value) :
    Members × Annotations :=
  if a.enabled then (Entries.put target (annotationName kind) v, a.record kind) else (target, a)

/-- Writes an annotation for each of some extensions. -/
def annotateAll (a : Annotations) (target : Members) (extensions : Members) :
    Members × Annotations :=
  extensions.foldl (fun state extension => state.2.annotate state.1 extension.1 extension.2)
    (target, a)

/-- The declarations of the kinds written. -/
def declarations (a : Annotations) : Members :=
  a.kinds.map fun kind => (kind, (Entries.get? knownKinds kind).getD (.str "any"))

/-- Forgets the kinds that do not occur in a definition. -/
def keepOccurring (a : Annotations) (definition : Value) : Annotations :=
  let emitted := occurringKinds definition
  { a with kinds := a.kinds.filter emitted.contains }

end Annotations

/-- A part of a pass over a project: it may write annotations and it may fail. -/
abbrev Pass (α : Type) := StateT Annotations Outcome α

/-- Writes an annotation into an object. -/
def annotate (target : Members) (kind : String) (v : Value) : Pass Members :=
  modifyGet fun a => a.annotate target kind v

/-- Writes an annotation for each of some extensions. -/
def annotateAll (target extensions : Members) : Pass Members :=
  modifyGet fun a => a.annotateAll target extensions

end Ramlify.Raml
