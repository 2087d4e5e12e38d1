import Ramlify.Entries
import Ramlify.Number.Decimal

/-!
# Values

The dynamic values that descriptions are made of: what JSON text can hold. Members of an object
keep their order, and whole numbers stay apart from floating-point numbers.

`Scalar` holds the values that may serve as keys. Numbers that are equal are the same key, whatever
their type, and a truth value counts as the number one or zero.
-/

namespace Ramlify

/-- A dynamic value. -/
inductive Value where
  | null
  | bool (b : Bool)
  | int (i : Int)
  | float (x : Binary64)
  | str (s : String)
  | list (items : List Value)
  | obj (members : List (String × Value))
  deriving Inhabited, Repr

abbrev Members := Entries String Value

namespace Value

/-- The types of values. -/
inductive Kind where
  | null
  | bool
  | int
  | float
  | str
  | list
  | obj
  deriving DecidableEq, Repr

def kind : Value → Kind
  | null => .null
  | bool _ => .bool
  | int _ => .int
  | float _ => .float
  | str _ => .str
  | list _ => .list
  | obj _ => .obj

/-- Whether a value is null, false, a zero, or an empty text, list or object. -/
def isVacant : Value → Bool
  | null => true
  | bool b => !b
  | int i => i == 0
  | float x => x.isZero
  | str s => s.isEmpty
  | list items => items.isEmpty
  | obj members => members.isEmpty

def isText (text : String) : Value → Bool
  | str s => s == text
  | _ => false

/-- A text or null. -/
def ofText? : Option String → Value
  | none => null
  | some s => str s

def texts (names : List String) : Value := list (names.map str)

end Value

/-- The value under a name, with null for a missing one. -/
def Members.find (members : Members) (name : String) : Value :=
  (Entries.get? members name).getD .null

/-- Puts a member, unless there is nothing in it. -/
def Members.putGiven (members : Members) (name : String) (v : Value) : Members :=
  if v.isVacant then members else Entries.put members name v

/-- The values that may be keys. -/
inductive Scalar where
  | null
  | bool (b : Bool)
  | int (i : Int)
  | float (x : Binary64)
  | str (s : String)
  deriving DecidableEq, Repr

namespace Scalar

/-- Lists and objects are no keys. -/
def ofValue? : Value → Option Scalar
  | .null => some null
  | .bool b => some (bool b)
  | .int i => some (int i)
  | .float x => some (float x)
  | .str s => some (str s)
  | .list _ => none
  | .obj _ => none

def toValue : Scalar → Value
  | null => .null
  | bool b => .bool b
  | int i => .int i
  | float x => .float x
  | str s => .str s

/-- The representative of all keys equal to this one: whole numbers stand for the truth values and
for the floating-point numbers of their value. -/
def canonical : Scalar → Scalar
  | bool b => int (if b then 1 else 0)
  | float x => match x.toInt? with
    | some i => int i
    | none => float x
  | key => key

/-- Keys are compared by their representatives. -/
instance : BEq Scalar := ⟨fun a b => decide (a.canonical = b.canonical)⟩

end Scalar

end Ramlify
