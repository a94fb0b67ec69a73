import Chip8.Opcode

/-!
The instruction set: thirty-five operations with their operands, and the table that maps words to
them. Operands may be any integers; those of a decoded word fit their bit field.
-/

namespace Chip8

/-- An operation with its operands: registers `x` and `y`, a byte `kk`, an address `nnn`. -/
inductive Instruction
  /-- Calls a routine of the host computer, which no interpreter can run. -/
  | sys (nnn : Int)
  | clear
  | ret
  | jump (nnn : Int)
  | call (nnn : Int)
  | skipEqByte (x kk : Int)
  | skipNeByte (x kk : Int)
  | skipEq (x y : Int)
  | loadByte (x kk : Int)
  | addByte (x kk : Int)
  | move (x y : Int)
  | or (x y : Int)
  | and (x y : Int)
  | xor (x y : Int)
  | add (x y : Int)
  | sub (x y : Int)
  | shiftRight (x y : Int)
  /-- Subtracts the other way round. -/
  | subFrom (x y : Int)
  | shiftLeft (x : Int)
  | skipNe (x y : Int)
  | setIndex (nnn : Int)
  /-- Jumps `V0` bytes past the address. -/
  | jumpOffset (nnn : Int)
  | random (x kk : Int)
  | draw (x y n : Int)
  | skipPressed (x : Int)
  | skipReleased (x : Int)
  | readDelay (x : Int)
  | waitKey (x : Int)
  | setDelay (x : Int)
  | setSound (x : Int)
  | addIndex (x : Int)
  /-- Points the index at the sprite of a hexadecimal digit. -/
  | fontIndex (x : Int)
  | storeDecimal (x : Int)
  | storeRegisters (x : Int)
  | loadRegisters (x : Int)
deriving DecidableEq

namespace Instruction

/-- Group 8 combines two registers; its last digit names the operation. -/
def decodeArithmetic? (op : Opcode) : Option Instruction :=
  match op.n with
  | 0x0 => some (.move op.x op.y)
  | 0x1 => some (.or op.x op.y)
  | 0x2 => some (.and op.x op.y)
  | 0x3 => some (.xor op.x op.y)
  | 0x4 => some (.add op.x op.y)
  | 0x5 => some (.sub op.x op.y)
  | 0x6 => some (.shiftRight op.x op.y)
  | 0x7 => some (.subFrom op.x op.y)
  | 0xE => some (.shiftLeft op.x)
  | _ => none

/-- Group E tests keys. -/
def decodeKey? (op : Opcode) : Option Instruction :=
  match op.kk with
  | 0x9E => some (.skipPressed op.x)
  | 0xA1 => some (.skipReleased op.x)
  | _ => none

/-- Group F holds timers, the index and transfers between registers and memory. -/
def decodeTransfer? (op : Opcode) : Option Instruction :=
  match op.kk with
  | 0x07 => some (.readDelay op.x)
  | 0x0A => some (.waitKey op.x)
  | 0x15 => some (.setDelay op.x)
  | 0x18 => some (.setSound op.x)
  | 0x1E => some (.addIndex op.x)
  | 0x29 => some (.fontIndex op.x)
  | 0x33 => some (.storeDecimal op.x)
  | 0x55 => some (.storeRegisters op.x)
  | 0x65 => some (.loadRegisters op.x)
  | _ => none

/-- The instruction of a word, none if the word has no meaning. -/
def decode? (op : Opcode) : Option Instruction :=
  match op.group with
  | 0x0 => some (if op.kk = 0xE0 then .clear else if op.kk = 0xEE then .ret else .sys op.nnn)
  | 0x1 => some (.jump op.nnn)
  | 0x2 => some (.call op.nnn)
  | 0x3 => some (.skipEqByte op.x op.kk)
  | 0x4 => some (.skipNeByte op.x op.kk)
  | 0x5 => some (.skipEq op.x op.y)
  | 0x6 => some (.loadByte op.x op.kk)
  | 0x7 => some (.addByte op.x op.kk)
  | 0x8 => decodeArithmetic? op
  | 0x9 => some (.skipNe op.x op.y)
  | 0xA => some (.setIndex op.nnn)
  | 0xB => some (.jumpOffset op.nnn)
  | 0xC => some (.random op.x op.kk)
  | 0xD => some (.draw op.x op.y op.n)
  | 0xE => decodeKey? op
  | _ => decodeTransfer? op

/-- One instruction of every form, all with the same operands. -/
def forms (a b c : Int) : List Instruction :=
  [.sys a, .clear, .ret, .jump a, .call a, .skipEqByte a b, .skipNeByte a b, .skipEq a b,
    .loadByte a b, .addByte a b, .move a b, .or a b, .and a b, .xor a b, .add a b, .sub a b,
    .shiftRight a b, .subFrom a b, .shiftLeft a, .skipNe a b, .setIndex a, .jumpOffset a,
    .random a b, .draw a b c, .skipPressed a, .skipReleased a, .readDelay a, .waitKey a,
    .setDelay a, .setSound a, .addIndex a, .fontIndex a, .storeDecimal a, .storeRegisters a,
    .loadRegisters a]

end Instruction

end Chip8
