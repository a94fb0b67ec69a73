import Chip8.Text.Hex

/-!
Instruction words. A word has sixteen bits, and every instruction keeps its operands in the same
bit fields, so any word can be split into fields; whether they mean something is decided by
`Instruction.decode?`.
-/

namespace Chip8

structure Opcode where
  raw : Nat
  raw_lt : raw < 0x10000
deriving DecidableEq

namespace Opcode

/-- The low sixteen bits of any integer. -/
def ofInt (word : Int) : Opcode := ⟨(word % 0x10000).toNat, by omega⟩

/-- The word stored as two bytes, the high one first; none if one is not a byte. -/
def ofBytes? (high low : Int) : Option Opcode :=
  if h : (0 ≤ high ∧ high < 256) ∧ (0 ≤ low ∧ low < 256) then
    some ⟨(high * 256 + low).toNat, by omega⟩
  else none

/-- The first hexadecimal digit, which names a family of instructions. -/
def group (op : Opcode) : Nat := op.raw / 0x1000

/-- The last three digits, an address. -/
def nnn (op : Opcode) : Nat := op.raw % 0x1000

/-- The second digit, a register. -/
def x (op : Opcode) : Nat := op.raw / 0x100 % 0x10

/-- The third digit, a register. -/
def y (op : Opcode) : Nat := op.raw / 0x10 % 0x10

def n (op : Opcode) : Nat := op.raw % 0x10

/-- The last two digits, a byte. -/
def kk (op : Opcode) : Nat := op.raw % 0x100

/-- The word as it is shown by itself. -/
def label (op : Opcode) : String := "Opcode(0x" ++ Text.hex 4 op.raw ++ ")"

end Opcode

end Chip8
