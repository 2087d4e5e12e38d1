import Ramlify.Failure

/-!
# Fitting values into records

A description that comes from outside is fitted into typed records. All misfits are found, in the
order in which the records declare their fields, each with the path to it. A member that is missing
takes its default, and members that no field asks for are passed over.
-/

namespace Ramlify

/-- A fitted value, or what does not fit. -/
inductive Fit (α : Type) where
  | fits (a : α)
  | misfits (found : List Misfit)

namespace Fit

variable {α β : Type}

def map (f : α → β) : Fit α → Fit β
  | fits a => fits (f a)
  | misfits found => misfits found

/-- Two parts fit if both do; otherwise the misfits of both are kept. -/
def both : Fit α → Fit β → Fit (α × β)
  | fits a, fits b => fits (a, b)
  | fits _, misfits found => misfits found
  | misfits found, fits _ => misfits found
  | misfits found, misfits more => misfits (found ++ more)

instance : Functor Fit := ⟨map, fun a => map fun _ => a⟩

instance : Applicative Fit where
  pure := fits
  seq f x := map (fun p => p.1 p.2) (both f (x ()))

/-- Puts a name before the paths of the misfits. -/
def under (name : String) : Fit α → Fit α
  | fits a => fits a
  | misfits found => misfits (found.map fun misfit => { misfit with path := name :: misfit.path })

/-- One misfit at the place itself. -/
def wrong (mismatch : Mismatch) : Fit α := misfits [⟨[], mismatch⟩]

def outcome : Fit α → Outcome α
  | fits a => .ok a
  | misfits found => .error (.invalid found)

end Fit

/-- How a value is fitted into a type. -/
abbrev Shape (α : Type) := Value → Fit α

namespace Shape

variable {α : Type}

def text : Shape String
  | .str s => .fits s
  | _ => .wrong .notText

def object : Shape Members
  | .obj members => .fits members
  | _ => .wrong .notObject

/-- The words for false and for true, without regard to case. -/
def falseWords : List String := ["0", "f", "n", "no", "off", "false"]

@[inherit_doc falseWords]
def trueWords : List String := ["1", "t", "true", "on", "y", "yes"]

/-- A truth value, or the number or the word for one. -/
def truth : Shape Bool
  | .bool b => .fits b
  | .str s =>
    let word := s.map Char.toLower
    if word ∈ falseWords then .fits false
    else if word ∈ trueWords then .fits true
    else .wrong .unclearTruth
  | .int i => ofInt i
  | .float x =>
    match x.toInt? with
    | some i => ofInt i
    | none => .wrong .notTruth
  | _ => .wrong .notTruth
where
  /-- The truth value of a number. -/
  ofInt (i : Int) : Fit Bool :=
    if i = 0 then .fits false else if i = 1 then .fits true else .wrong .unclearTruth

/-- Null or a value of a shape. -/
def optional (shape : Shape α) : Shape (Option α)
  | .null => .fits none
  | v => (shape v).map some

/-- Fits the items of a list from a position on. -/
def itemsFrom (shape : Shape α) : Nat → List Value → Fit (List α)
  | _, [] => .fits []
  | position, item :: rest =>
    List.cons <$> (shape item).under (toString position) <*> itemsFrom shape (position + 1) rest

def list (shape : Shape α) : Shape (List α)
  | .list items => itemsFrom shape 0 items
  | _ => .wrong .notList

/-- A record, fitted from the members of an object. -/
def record (fields : Members → Fit α) : Shape α
  | .obj members => fields members
  | _ => .wrong .notRecord

/-- A field with a default. -/
def field (members : Members) (name : String) (shape : Shape α) (default : α) : Fit α :=
  match Entries.get? members name with
  | some v => (shape v).under name
  | none => .fits default

/-- A field that has to be present. -/
def needed (members : Members) (name : String) (shape : Shape α) : Fit α :=
  match Entries.get? members name with
  | some v => (shape v).under name
  | none => (Fit.wrong .missing).under name

end Shape

end Ramlify
