/-!
The values of options, as a program that starts another one may hand them over: with values left
out, unset, or of a kind that the option cannot take.
-/

namespace Chip8

/-- The value of an option. -/
inductive Setting (α : Type)
  /-- The option is not even mentioned. -/
  | missing
  /-- The choice is left to the program. -/
  | unset
  /-- A value of another kind than the option takes. -/
  | foreign (isEmpty : Bool)
  | given (value : α)
deriving DecidableEq

namespace Setting

variable {α : Type}

def isMentioned : Setting α → Bool
  | .missing => false
  | _ => true

end Setting

end Chip8
