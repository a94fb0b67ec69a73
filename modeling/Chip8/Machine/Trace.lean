import Chip8.Instruction.Mnemonic
import Chip8.Machine

/-!
One line of text about the state of a machine, and what is printed during a run: the line of each
instruction in a live trace, and a report for each word that is no instruction.
-/

namespace Chip8

structure Readout where
  v : Vector UInt8 16
  i : Int
  dt : Int
  st : Int
  pc : Int
  /-- Where the next entry of the stack goes. -/
  pointer : Int
  ticks : Int
  opcode : Int
deriving DecidableEq

namespace Readout

/-- The registers from `VF` down to `V0`, two digits each. -/
def registersText (r : Readout) : String := Text.hexBytes r.v.toList.reverse

/-- The numbers behind the registers, each with its label. -/
def fields (r : Readout) : List (String × String) :=
  [("I: 0x", Text.hex 4 r.i), ("DT: 0x", Text.hex 2 r.dt), ("ST: 0x", Text.hex 2 r.st),
    ("PC: 0x", Text.hex 3 r.pc), ("SP: 0x", Text.hex 1 r.pointer), ("TK: ", toString r.ticks),
    ("OP: 0x", Text.hex 4 r.opcode)]

def fieldText (field : String × String) : String := " " ++ field.1 ++ field.2

/-- All numbers in one line, with the text of the instruction at its end. -/
def line (r : Readout) (text : String) : String :=
  "V: 0x" ++ r.registersText ++ String.join (r.fields.map fieldText) ++ fieldText ("IN: ", text)

def stackText (items : List Int) : String :=
  if items.isEmpty then " (Empty)"
  else String.join (items.map fun item => fieldText ("0x", Text.hex 3 item))

/-- The numbers with the stack on a second line. -/
def verbose (r : Readout) (items : List Int) (text : String) : String :=
  r.line text ++ "\nStack:" ++ stackText items

end Readout

namespace Machine

def readout (m : Machine) : Readout :=
  ⟨m.v, m.i, m.dt, m.st, m.pc, m.stack.pointer, m.ticks, m.opcode⟩

def traceLine (m : Machine) (text : String) : String := m.readout.line text

def verboseTrace (m : Machine) (text : String) : String :=
  m.readout.verbose m.stack.items text

def unknownReport (m : Machine) (op : Opcode) : String :=
  "Opcode 0x" ++ Text.hex 4 op.raw ++ " at address 0x" ++ Text.hex 3 m.pc ++
    " is not a CHIP-8 instruction, skipping.\n" ++ m.verboseTrace "???"

end Machine

end Chip8
