import Ramlify.Access

/-!
# Variables in texts

A variable is written between double braces in a collection and between double angle brackets in
RAML. Of each text one span is changed: from the first double brace that has a closing one after it
on its line to the last closing one on that line.
-/

namespace Ramlify.Postman

/-- Replaces the last closing double brace before the end of the line. -/
def closeLast : List Char → Option (List Char)
  | [] => none
  | '\n' :: _ => none
  | c :: rest =>
    match closeLast rest with
    | some closed => some (c :: closed)
    | none =>
      match c, rest with
      | '}', '}' :: rest => some ('>' :: '>' :: rest)
      | _, _ => none

/-- Puts angle brackets for the braces of the first span. -/
def bracketChars : List Char → List Char
  | '{' :: '{' :: rest =>
    match closeLast rest with
    | some closed => '<' :: '<' :: closed
    | none => '{' :: bracketChars ('{' :: rest)
  | c :: rest => c :: bracketChars rest
  | [] => []

/-- Puts angle brackets for the braces of the first span of a text. -/
def bracketVariable (s : String) : String := String.ofList (bracketChars s.toList)

/-- The default that a text gives: null for the empty text. -/
def defaultOf (cs : List Char) : Value :=
  if cs.isEmpty then .null else .str (String.ofList (bracketChars cs))

/-- The default that a member gives: null when there is nothing in it. -/
def defaultOfValue (v : Value) : Outcome Value :=
  if v.isVacant then .ok .null
  else
    match v with
    | .str s => .ok (defaultOf s.toList)
    | _ => .error (.misuse .type)

end Ramlify.Postman
