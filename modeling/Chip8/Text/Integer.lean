import Chip8.Text.Blank
import Chip8.Text.DecimalDigit

/-!
Reading a decimal integer: blanks around it, at most one sign, then digits of any script, where a
single low line may stand between two digits. Leading zeros are allowed, but no more than
`maxDigits` digits are read.
-/

namespace Chip8.Text

/-- The greatest number of digits in one integer, leading zeros included. -/
def maxDigits : Nat := 4300

/-- The digits of a text in which one low line may separate two digits. -/
def digits? : List Char → Option (List Nat)
  | [] => none
  | [c] => (digitValue? c).map ([·])
  | c :: '_' :: rest => do return (← digitValue? c) :: (← digits? rest)
  | c :: rest => do return (← digitValue? c) :: (← digits? rest)

def ofDigits (digits : List Nat) : Nat := digits.foldl (fun n d => 10 * n + d) 0

def natural? (cs : List Char) : Option Nat := do
  let ds ← digits? cs
  if ds.length ≤ maxDigits then some (ofDigits ds) else none

/-- The value of a written integer, none if the text is not one. -/
def integer? (text : List Char) : Option Int :=
  match trimBlanks text with
  | '-' :: cs => (natural? cs).map fun n => -(n : Int)
  | '+' :: cs => (natural? cs).map Int.ofNat
  | cs => (natural? cs).map Int.ofNat

end Chip8.Text
