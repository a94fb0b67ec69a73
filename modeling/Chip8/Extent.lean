import Chip8.Binary64.Decimal

/-!
Numbers in the form in which they were asked for. A fraction stays one even if its value is whole,
since some displays can only use whole numbers, and zero keeps its sign.
-/

namespace Chip8

inductive Extent
  | whole (n : Int)
  /-- A yes counts as one, a no as zero. -/
  | truth (yes : Bool)
  | fraction (x : Binary64)
  /-- The fraction zero with a minus sign. -/
  | negativeZero
deriving DecidableEq

namespace Extent

def ofText? (text : String) : Option Extent :=
  (Binary64.ofText? text).map fun x =>
    if x = 0 ∧ text.toList.head? = some '-' then .negativeZero else .fraction x

/-- The whole number that it counts as, if it is no fraction. -/
def count? : Extent → Option Int
  | .whole n => some n
  | .truth yes => some yes.toInt
  | .fraction _ => none
  | .negativeZero => none

def belowOne : Extent → Bool
  | .whole n => n < 1
  | .truth yes => !yes
  | .fraction x => x.lt 1
  | .negativeZero => true

def isOne : Extent → Bool
  | .whole n => n = 1
  | .truth yes => yes
  | .fraction x => x = 1
  | .negativeZero => false

/-- Half of it, rounded down; half of a fraction is one. -/
def half : Extent → Extent
  | .whole n => .whole (n.fdiv 2)
  | .truth yes => .whole (yes.toInt.fdiv 2)
  | .fraction (.finite value) => .fraction (.finite (value / 2).floor)
  | .fraction _ => .fraction .undefined
  | .negativeZero => .negativeZero

end Extent

end Chip8
