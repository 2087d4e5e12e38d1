import Ramlify.Json.Reader
import Ramlify.Text.Utf8

/-!
# Percent decoding

A percent sign with two hexadecimal digits stands for a byte, and bytes are decoded as UTF-8. A
percent sign without them stands for itself.
-/

namespace Ramlify.Text

/-- The bytes of a text: escapes and ASCII characters are bytes, other characters stay. -/
def octets : List Char → List Octet
  | [] => []
  | '%' :: a :: b :: rest =>
    match Json.hexValue? a, Json.hexValue? b with
    | some high, some low => .byte (high * 16 + low) :: octets rest
    | _, _ => .byte 37 :: octets (a :: b :: rest)
  | c :: rest => (if c.toNat < 128 then .byte c.toNat else .char c) :: octets rest

def percentDecode (cs : List Char) : List Char := decode (octets cs)

end Ramlify.Text
