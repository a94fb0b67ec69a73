/-!
Lower-case hexadecimal text, and the bytes that such a text in either case stands for. A width is a
least number of characters: short numbers are filled up with zeros on the left, long ones are
written whole, and a minus sign counts as one character of the width.
-/

namespace Chip8.Text

/-- The hexadecimal digits of a number, most significant first, without leading zeros. -/
def hexDigits (n : Nat) : List Char := Nat.toDigits 16 n

/-- The characters of `n` in hexadecimal, at least `width` of them. -/
def hexChars (width : Nat) (n : Int) : List Char :=
  if n < 0 then '-' :: (hexDigits n.natAbs).leftpad (width - 1) '0'
  else (hexDigits n.toNat).leftpad width '0'

/-- Writes `n` in hexadecimal; at width three, ten is `00a` and minus one is `-01`. -/
def hex (width : Nat) (n : Int) : String := String.ofList (hexChars width n)

/-- Two digits for each byte, without separators. -/
def hexBytes (bytes : List UInt8) : String :=
  String.join (bytes.map fun b => hex 2 b.toNat)

def hexValue (c : Char) : Nat := ("0123456789abcdef".toList).idxOf c.toLower

/-- The bytes that are written with two digits each; a last single digit is none. -/
def bytesOfHex : List Char → List UInt8
  | high :: low :: rest => UInt8.ofNat (16 * hexValue high + hexValue low) :: bytesOfHex rest
  | _ => []

end Chip8.Text
