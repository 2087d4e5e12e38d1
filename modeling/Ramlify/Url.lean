import Ramlify.Access
import Ramlify.Text.Split

/-!
# URLs

Whether a text is the address of a page: it has the scheme `http` or `https` and names a host. Any
text that names a host in the form of a URL is checked on the way, whatever its scheme: a host
within brackets has to be an address of version 6 or later, and characters that stand for
delimiters are refused.
-/

namespace Ramlify.Url

/-! ## Addresses within brackets -/

def isHex (c : Char) : Bool :=
  ('0' ≤ c && c ≤ '9') || ('a' ≤ c && c ≤ 'f') || ('A' ≤ c && c ≤ 'F')

def isDecimal (c : Char) : Bool := '0' ≤ c && c ≤ '9'

/-- A decimal number up to 255 without leading zeros. -/
def isOctet (cs : List Char) : Bool :=
  !cs.isEmpty && cs.length ≤ 3 && cs.all isDecimal && (cs == ['0'] || cs.head? != some '0') &&
    cs.foldl (fun n c => n * 10 + (c.toNat - 48)) 0 ≤ 255

def isVersion4 (cs : List Char) : Bool :=
  let octets := Text.split '.' cs
  octets.length == 4 && octets.all isOctet

/-- A group of up to four hexadecimal digits. -/
def isGroup (cs : List Char) : Bool := !cs.isEmpty && cs.length ≤ 4 && cs.all isHex

/-- The groups of an address of version 6. One of version 4 at the end stands for two groups. -/
def groups? (cs : List Char) : Option (List (List Char)) :=
  let parts := Text.split ':' cs
  if parts.length < 3 then none
  else
    let last := parts.getLastD []
    if last.contains '.' then
      if isVersion4 last then some (parts.dropLast ++ [['0'], ['0']]) else none
    else some parts

/-- Groups of which a series is left out. The groups before and after it are given, and there is an
empty one at an end only where the series begins or ends the address. -/
def isShortened (before after : List (List Char)) : Bool :=
  let before := if before == [[]] then [] else before
  let after := if after == [[]] then [] else after
  before.all isGroup && after.all isGroup && before.length + after.length < 8

/-- An address of version 6 without a zone. -/
def isVersion6 (cs : List Char) : Bool :=
  match groups? cs with
  | none => false
  | some parts =>
    let inner := (parts.drop 1).dropLast
    match inner.findIdx? (·.isEmpty) with
    | none => parts.length == 8 && parts.all isGroup
    | some skipped => isShortened (parts.take (skipped + 1)) (parts.drop (skipped + 2))

/-- An address of version 6, which may have a zone after a percent sign. -/
def isZoned (cs : List Char) : Bool :=
  isVersion6 (Text.firstField '%' cs) &&
    (match cs.dropWhile (· != '%') with
      | [] => true
      | _ :: zone => !zone.isEmpty && !zone.contains '%')

/-- An address of a version to come: its hexadecimal number, a point, and more. -/
def isLaterVersion (cs : List Char) : Bool :=
  let number := cs.takeWhile isHex
  !number.isEmpty &&
    (match cs.dropWhile isHex with
      | '.' :: rest => !rest.isEmpty
      | _ => false)

def isBracketed (cs : List Char) : Bool :=
  match cs with
  | 'v' :: rest => isLaterVersion rest
  | _ => isZoned cs

/-! ## Hosts -/

/-- The characters that stand for one of the delimiters of a URL. -/
def delimiterForms : List Char :=
  ['\u2047', '\u2048', '\u2049', '\u2100', '\u2101', '\u2105', '\u2106', '\u2a74', '\ufe13',
   '\ufe16', '\ufe55', '\ufe56', '\ufe5f', '\ufe6b', '\uff03', '\uff0f', '\uff1a', '\uff1f',
   '\uff20']

def isHost (host : List Char) : Bool :=
  let opened := host.contains '['
  let closed := host.contains ']'
  opened == closed &&
    (!opened || isBracketed (Text.firstField ']' ((host.dropWhile (· != '[')).drop 1))) &&
    !host.any delimiterForms.contains

/-! ## URLs -/

def isSchemeChar (c : Char) : Bool := c.isAlphanum || c == '+' || c == '-' || c == '.'

/-- The text without control characters and blanks before it, and without tabs and line ends. -/
def cleaned (cs : List Char) : List Char :=
  (cs.dropWhile fun c => c.toNat ≤ 32).filter fun c => c != '\t' && c != '\r' && c != '\n'

/-- The scheme of a URL in small letters and what follows it. A text without a scheme is all that
follows. -/
def splitScheme (cs : List Char) : List Char × List Char :=
  let scheme := Text.firstField ':' cs
  if scheme.head?.any Char.isAlpha && scheme.all isSchemeChar && cs.contains ':' then
    (scheme.map Char.toLower, cs.drop (scheme.length + 1))
  else ([], cs)

/-- The host that stands after two slashes, with all up to the next delimiter. -/
def hostOf : List Char → List Char
  | '/' :: '/' :: rest => rest.takeWhile fun c => c != '/' && c != '?' && c != '#'
  | _ => []

/-- The schemes of pages. -/
def pageSchemes : List (List Char) := [['h', 't', 't', 'p'], ['h', 't', 't', 'p', 's']]

/-- Whether a text is the address of a page. -/
def isPage (s : String) : Outcome Bool :=
  let (scheme, rest) := splitScheme (cleaned s.toList)
  let host := hostOf rest
  if isHost host then .ok (scheme ∈ pageSchemes && !host.isEmpty)
  else .error (.misuse .content)

/-- Whether a value is the address of a page. -/
def isPageValue (v : Value) : Outcome Bool :=
  match v with
  | .str s => isPage s
  | v => if v.isVacant then .ok false else .error (.misuse .operation)

end Ramlify.Url
