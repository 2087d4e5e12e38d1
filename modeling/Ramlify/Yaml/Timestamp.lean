/-!
# Times

The written form of dates and times in YAML 1.1: `2001-12-14`, or `2001-12-14 21:59:43.10 -5` with
many liberties. Reading a time (`Timestamp.parse?`) does not yet check that there is such a day;
`Timestamp.isValid` does.
-/

namespace Ramlify.Yaml

/-- An offset from universal time. -/
structure Offset where
  hours : Nat
  minutes : Nat
  deriving DecidableEq, Repr

/-- A time of day. -/
structure DayTime where
  hour : Nat
  minute : Nat
  second : Nat
  offset : Option Offset
  deriving DecidableEq, Repr

/-- A date that may have a time of day. -/
structure Timestamp where
  year : Nat
  month : Nat
  day : Nat
  /-- Whether month and day are written with two digits each. -/
  wide : Bool
  time : Option DayTime
  deriving DecidableEq, Repr

namespace Timestamp

/-- The value of one of the digits 0 to 9. -/
def digit? (c : Char) : Option Nat :=
  if '0' ≤ c ∧ c ≤ '9' then some (c.toNat - 48) else none

def two? : List Char → Option (Nat × List Char)
  | a :: b :: rest => do return ((← digit? a) * 10 + (← digit? b), rest)
  | _ => none

def oneOrTwo? (cs : List Char) : Option (Nat × List Char) :=
  match two? cs with
  | some found => some found
  | none =>
    match cs with
    | a :: rest => (digit? a).map fun n => (n, rest)
    | [] => none

def mark? (c : Char) : List Char → Option (List Char)
  | d :: rest => if d = c then some rest else none
  | [] => none

def skipGap (cs : List Char) : List Char := cs.dropWhile fun c => c == ' ' || c == '\t'

/-- Skips the fraction of a second, if there is one. -/
def skipFraction : List Char → List Char
  | '.' :: rest => rest.dropWhile fun c => (digit? c).isSome
  | cs => cs

/-- A zone up to the end of the text: nothing, `Z`, or hours with minutes. -/
def zone? (cs : List Char) : Option (Option Offset) :=
  match cs with
  | [] => some none
  | _ =>
    match skipGap cs with
    | ['Z'] => some none
    | sign :: rest =>
      if sign = '+' ∨ sign = '-' then
        match oneOrTwo? rest with
        | some (hours, []) => some (some ⟨hours, 0⟩)
        | some (hours, ':' :: rest) =>
          match two? rest with
          | some (minutes, []) => some (some ⟨hours, minutes⟩)
          | _ => none
        | _ => none
      else none
    | [] => none

/-- A time of day up to the end of the text. -/
def dayTime? (cs : List Char) : Option DayTime := do
  let (hour, rest) ← oneOrTwo? cs
  let (minute, rest) ← two? (← mark? ':' rest)
  let (second, rest) ← two? (← mark? ':' rest)
  let offset ← zone? (skipFraction rest)
  return ⟨hour, minute, second, offset⟩

/-- What follows the mark between a date and a time of day. -/
def afterDate? : List Char → Option (List Char)
  | c :: rest =>
    if c = 'T' ∨ c = 't' then some rest
    else if c = ' ' ∨ c = '\t' then some (skipGap rest)
    else none
  | [] => none

/-- The text of a date or a time as a whole. -/
def parse? (cs : List Char) : Option Timestamp := do
  let (century, rest) ← two? cs
  let (year, rest) ← two? rest
  let afterYear ← mark? '-' rest
  let (month, rest) ← oneOrTwo? afterYear
  let afterMonth ← mark? '-' rest
  let (day, last) ← oneOrTwo? afterMonth
  let wide := (two? afterYear).isSome && (two? afterMonth).isSome
  let time ← match last with
    | [] => some none
    | _ => (dayTime? (← afterDate? last)).map some
  return ⟨century * 100 + year, month, day, wide, time⟩

/-- Whether a year has a day more than others. -/
def isLeap (year : Nat) : Bool := year % 4 == 0 && (year % 100 != 0 || year % 400 == 0)

def daysIn (year month : Nat) : Nat :=
  if month = 2 then (if isLeap year then 29 else 28)
  else if month = 4 ∨ month = 6 ∨ month = 9 ∨ month = 11 then 30
  else 31

/-- Whether there is such a time of day. An offset stays below a day. -/
def isValidTime (t : DayTime) : Bool :=
  t.hour < 24 && t.minute < 60 && t.second < 60 &&
    (match t.offset with
      | none => true
      | some offset => offset.hours * 60 + offset.minutes < 24 * 60)

/-- Whether there is such a day and such a time of day. -/
def isValid (t : Timestamp) : Bool :=
  1 ≤ t.year && 1 ≤ t.month && t.month ≤ 12 && 1 ≤ t.day && t.day ≤ daysIn t.year t.month &&
    (match t.time with
      | none => true
      | some time => isValidTime time)

end Timestamp

end Ramlify.Yaml
