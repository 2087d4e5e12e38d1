import Ramlify.Failure

/-!
# Access to the parts of values

Descriptions come from outside, so a member may have any type. The operations here give the parts
of a value, or the misuse that asking for them is.
-/

namespace Ramlify.Value

def members : Value → Outcome Members
  | obj members => .ok members
  | _ => .error (.misuse .operation)

def letters : Value → Outcome (List Char)
  | str s => .ok s.toList
  | _ => .error (.misuse .operation)

/-- A key, which lists and objects are not. -/
def key (v : Value) : Outcome Scalar :=
  match Scalar.ofValue? v with
  | some k => .ok k
  | none => .error (.misuse .type)

/-- What a walk through a value meets: the items of a list, the names of an object, the characters
of a text. -/
def elements : Value → Outcome (List Value)
  | list items => .ok items
  | obj members => .ok (Entries.keys members |>.map str)
  | str s => .ok (s.toList.map fun c => str (String.singleton c))
  | _ => .error (.misuse .type)

/-- Whether one list of characters stands somewhere within another. -/
def isWithin (part : List Char) : List Char → Bool
  | [] => part.isEmpty
  | c :: cs => part.isPrefixOf (c :: cs) || isWithin part cs

/-- Whether a text is an item of a list, a name of an object, or a part of a text. -/
def holds (container : Value) (name : String) : Outcome Bool :=
  match container with
  | list items => .ok (items.any (isText name))
  | obj members => .ok (Entries.has members name)
  | str s => .ok (isWithin name.toList s.toList)
  | _ => .error (.misuse .type)

/-- Whether a value is an item of a list, a name of an object, or a part of a text. -/
def contains (container item : Value) : Outcome Bool :=
  match container, item with
  | str _, str part => container.holds part
  | list items, item => .ok (items.any fun other =>
      match Scalar.ofValue? other, Scalar.ofValue? item with
      | some a, some b => a == b
      | _, _ => false)
  | obj _, str name => container.holds name
  | obj _, list _ => .error (.misuse .type)
  | obj _, obj _ => .error (.misuse .type)
  | obj _, _ => .ok false
  | _, _ => .error (.misuse .type)

/-- The first part of a text or a list. -/
def first : Value → Outcome Value
  | str s =>
    match s.toList with
    | [] => .error (.misuse .position)
    | c :: _ => .ok (str (String.singleton c))
  | list [] => .error (.misuse .position)
  | list (item :: _) => .ok item
  | obj _ => .error (.misuse .word)
  | _ => .error (.misuse .type)

/-- The item at a position of a list. Negative positions count from the end. -/
def itemAt (items : List Value) (position : Int) : Outcome Value :=
  let index := if position < 0 then position + items.length else position
  match if index < 0 then none else items[index.toNat]? with
  | some item => .ok item
  | none => .error (.misuse .position)

/-- The item of a list under a key, which has to be a whole number or a truth value. -/
def item (container key : Value) : Outcome Value :=
  match container, key with
  | list items, int position => itemAt items position
  | list items, bool b => itemAt items (if b then 1 else 0)
  | _, _ => .error (.misuse .type)

/-- The number of parts of a value, as a key. -/
def size : Value → Outcome Scalar
  | str s => .ok (.int s.length)
  | list items => .ok (.int items.length)
  | obj members => .ok (.int members.length)
  | _ => .error (.misuse .type)

def put (container : Value) (name : String) (member : Value) : Outcome Value :=
  match container with
  | obj members => .ok (obj (Entries.put members name member))
  | _ => .error (.misuse .type)

end Ramlify.Value
