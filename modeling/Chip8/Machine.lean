import Chip8.CallStack
import Chip8.Instruction
import Chip8.Memory
import Chip8.Screen

/-!
The state of the virtual machine. Everything that a program can reach is in it, and so is what the
outside can observe of a run: how often the buzzer was asked to sound, how many random numbers were
drawn, and what was printed.
-/

namespace Chip8

structure Machine where
  /-- The registers `V0` to `VF`. -/
  v : Vector UInt8 16
  /-- The index, which addresses memory. It is not limited to the size of memory. -/
  i : Int
  /-- The program counter. -/
  pc : Int
  /-- The delay timer. -/
  dt : Int
  /-- The sound timer. -/
  st : Int
  /-- The word last fetched. -/
  opcode : Int
  /-- Steps taken. -/
  ticks : Int
  keys : Vector Bool 16
  memory : Memory
  stack : CallStack
  screen : Screen
  /-- Whether every instruction is printed before it is executed. -/
  live : Bool
  /-- The random numbers, in the order in which they are drawn. -/
  random : Nat → Int
  /-- Random numbers drawn so far. -/
  draws : Nat
  /-- How often the buzzer was asked to sound. -/
  beeps : Nat
  /-- What was printed, one entry for each print. -/
  printed : Array String

namespace Machine

/-- Where programs are loaded and started. -/
def programStart : Int := 0x200

/-- The register that instructions set as a carry, borrow or collision flag. -/
def flagRegister : Int := 0xF

def instructionSize : Int := 2

/-- These numbers over and over, or zeros if there are none. -/
def inTurn (numbers : Array Int) : Nat → Int := fun k => numbers.getD (k % numbers.size) 0

def initial (memory : Memory) (stack : CallStack) (screen : Screen) (live : Bool)
    (random : Nat → Int) : Machine where
  v := Vector.replicate 16 0
  i := 0
  pc := programStart
  dt := 0
  st := 0
  opcode := 0
  ticks := 0
  keys := Vector.replicate 16 false
  memory := memory
  stack := stack
  screen := screen
  live := live
  random := random
  draws := 0
  beeps := 0
  printed := #[]

/-- The register that an operand names. Decoded operands are below sixteen. -/
def register (x : Int) : Fin 16 := Fin.ofNat 16 x.toNat

def reg (m : Machine) (x : Int) : UInt8 := m.v.get (register x)

def setReg (m : Machine) (x : Int) (b : UInt8) : Machine :=
  { m with v := m.v.setIfInBounds (register x) b }

/-- Sets the flag register to one or zero. -/
def setFlag (m : Machine) (on : Bool) : Machine := m.setReg flagRegister (if on then 1 else 0)

def next (m : Machine) : Machine := { m with pc := m.pc + instructionSize }

/-- Goes on to the next instruction, or past it. -/
def skipIf (m : Machine) (condition : Bool) : Machine :=
  { m with pc := m.pc + (if condition then 2 * instructionSize else instructionSize) }

def setKeys (m : Machine) (keys : Vector Bool 16) : Machine := { m with keys := keys }

def print (m : Machine) (text : String) : Machine := { m with printed := m.printed.push text }

def printedSince (m earlier : Machine) : List String :=
  (m.printed.extract earlier.printed.size m.printed.size).toList

/-- Whether there is no room for a whole instruction at the program counter. -/
def halted (m : Machine) : Bool := m.memory.top < m.pc + 1

end Machine

end Chip8
