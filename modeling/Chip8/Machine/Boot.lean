import Chip8.Machine.Execute
import Chip8.Rom

/-!
The standard machine with a program in it, ready for its first step.
-/

namespace Chip8.Machine

def stackDepth : Int := 16

/-- The standard machine with a program. A program that does not fit is left out. -/
def boot (program : List UInt8) (live : Bool) (random : Nat → Int) : Machine :=
  initial (Rom.install (Memory.zeros Rom.memorySize) program).1 (CallStack.ofSize stackDepth)
    (Screen.blank Screen.standardWidth Screen.standardHeight) live random

end Chip8.Machine
