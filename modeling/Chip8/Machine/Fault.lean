import Chip8.CallStack
import Chip8.Memory
import Chip8.Opcode
import Chip8.Screen

/-!
Why an instruction cannot be executed.
-/

namespace Chip8.Machine

inductive Fault
  | memory (fault : Memory.Fault)
  | stack (fault : CallStack.Fault)
  | screen (fault : Screen.Fault)
  /-- A key test with a number that is no key, in register `x`, at address `pc`. -/
  | key (number : UInt8) (x pc : Int)
  | unknownOpcode (op : Opcode)
  /-- The delay timer holds a value that no register can take. -/
  | timer (value : Int)
deriving DecidableEq

def Fault.message : Fault → String
  | .memory f => f.message
  | .stack f => f.message
  | .screen f => f.message
  | .key number x pc =>
    "Key 0x" ++ Text.hex 2 number.toNat ++ " in V" ++ Text.hex 1 x ++
      " is out of range at address 0x" ++ Text.hex 3 pc
  | .unknownOpcode op => "Unknown opcode 0x" ++ Text.hex 4 op.raw
  | .timer value => "Not a byte: " ++ toString value

end Chip8.Machine
