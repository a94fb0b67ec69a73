import Chip8.Binary64

/-!
Decimal text of binary64 numbers: digits, perhaps a point and more digits, perhaps `e` and an
exponent, and words for what is not finite. Reading rounds to the nearest number. Writing is exact,
since a binary fraction of `k` digits is a decimal fraction of `k` digits.
-/

namespace Chip8.Binary64

/-- The value of ASCII digits; there must be one at least. -/
def natural? (digits : List Char) : Option Nat :=
  if digits.isEmpty || !digits.all Char.isDigit then none
  else some (digits.foldl (fun n c => 10 * n + (c.toNat - '0'.toNat)) 0)

def exponent? : List Char → Option Int
  | '-' :: digits => (natural? digits).map fun n => -(n : Int)
  | '+' :: digits => (natural? digits).map Int.ofNat
  | digits => (natural? digits).map Int.ofNat

/-- Digits, a point and digits, shifted by a power of ten. -/
def shifted? (whole decimals : List Char) (exponent : Int) : Option Rat := do
  let n ← natural? (whole ++ decimals)
  let shift := exponent - decimals.length
  return if 0 ≤ shift then (n : Rat) * Nat.pow 10 shift.toNat
    else (n : Rat) / Nat.pow 10 (-shift).toNat

def decimal? (text : List Char) : Option Rat := do
  let (mantissa, power) := text.span (· ≠ 'e')
  let (whole, decimals) := mantissa.span (· ≠ '.')
  let exponent ← if power.isEmpty then some 0 else exponent? power.tail
  shifted? whole decimals.tail exponent

def ofText? (text : String) : Option Binary64 :=
  match text with
  | "NaN" => some .undefined
  | "Infinity" => some (.infinite false)
  | "-Infinity" => some (.infinite true)
  | _ =>
    match text.toList with
    | '-' :: rest => (decimal? rest).map fun q => ofRat (-q)
    | rest => (decimal? rest).map ofRat

/-- Writes a number in full: the digits of its value, and how many of them are decimals. -/
def toText : Binary64 → String
  | .finite value =>
    let places := value.den.log2
    toString (value.num * Nat.pow 5 places) ++ "e-" ++ toString places
  | .infinite negative => if negative then "-Infinity" else "Infinity"
  | .undefined => "NaN"

end Chip8.Binary64
