/-!
Slices of a row of items by two signed positions.
-/

namespace Chip8

/-- The place among `size` items that a position stands for: a negative one counts from the end,
and one beyond an end is moved to that end. -/
def sliceEnd (size : Nat) (k : Int) : Nat :=
  if k < 0 then (k + size).toNat else min k.toNat size

end Chip8
