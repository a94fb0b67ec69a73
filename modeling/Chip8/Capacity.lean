/-!
How much a host can hold. A row of items has a length, which is a signed number of 64 bits; a
negative one stands for a row without items. The bytes of all items together must fit into the
room that the host has for one row.
-/

namespace Chip8.Capacity

inductive Fault
  /-- The length is no signed number of 64 bits. -/
  | unaddressable (length : Int)
  /-- There is no room for this many bytes. -/
  | exhausted (bytes : Nat)
deriving DecidableEq

def Fault.message : Fault → String
  | .unaddressable length => "Not the length of a row: " ++ toString length
  | .exhausted bytes => "No room for " ++ toString bytes ++ " bytes"

/-- Lengths lie below this number and not below its negative. -/
def lengthLimit : Int := 0x8000000000000000

def checkLength (length : Int) : Except Fault Unit :=
  if length < -lengthLimit ∨ lengthLimit ≤ length then .error (.unaddressable length) else .ok ()

/-- Refuses a row for which there is not so much room, in bytes. -/
def checkRow (room : Nat) (length : Int) (itemBytes : Nat) : Except Fault Unit := do
  checkLength length
  if room ≤ length.toNat * itemBytes then .error (.exhausted (length.toNat * itemBytes))
  else .ok ()

end Chip8.Capacity
