import Chip8.Instruction

/-!
The assembler text of an instruction. Every operand is written, except the second register of a
right shift, which the machine ignores.
-/

namespace Chip8.Instruction

/-- A register operand, `V` and one hexadecimal digit. -/
def registerText (x : Int) : String := "V" ++ Text.hex 1 x

def nibbleText (n : Int) : String := "0x" ++ Text.hex 1 n

def byteText (kk : Int) : String := "0x" ++ Text.hex 2 kk

def addressText (nnn : Int) : String := "0x" ++ Text.hex 3 nnn

def withByte (name : String) (x kk : Int) : String :=
  name ++ " " ++ registerText x ++ ", " ++ byteText kk

def withRegisters (name : String) (x y : Int) : String :=
  name ++ " " ++ registerText x ++ ", " ++ registerText y

/-- The conventional mnemonic with its operands. -/
def mnemonic : Instruction → String
  | .sys nnn => "SYS " ++ addressText nnn
  | .clear => "CLS"
  | .ret => "RET"
  | .jump nnn => "JP " ++ addressText nnn
  | .call nnn => "CALL " ++ addressText nnn
  | .skipEqByte x kk => withByte "SE" x kk
  | .skipNeByte x kk => withByte "SNE" x kk
  | .skipEq x y => withRegisters "SE" x y
  | .loadByte x kk => withByte "LD" x kk
  | .addByte x kk => withByte "ADD" x kk
  | .move x y => withRegisters "LD" x y
  | .or x y => withRegisters "OR" x y
  | .and x y => withRegisters "AND" x y
  | .xor x y => withRegisters "XOR" x y
  | .add x y => withRegisters "ADD" x y
  | .sub x y => withRegisters "SUB" x y
  | .shiftRight x _ => "SHR " ++ registerText x
  | .subFrom x y => withRegisters "SUBN" x y
  | .shiftLeft x => "SHL " ++ registerText x
  | .skipNe x y => withRegisters "SNE" x y
  | .setIndex nnn => "LD I, " ++ addressText nnn
  | .jumpOffset nnn => "JP V0, " ++ addressText nnn
  | .random x kk => withByte "RND" x kk
  | .draw x y n => withRegisters "DRW" x y ++ ", " ++ nibbleText n
  | .skipPressed x => "SKP " ++ registerText x
  | .skipReleased x => "SKNP " ++ registerText x
  | .readDelay x => "LD " ++ registerText x ++ ", DT"
  | .waitKey x => "LD " ++ registerText x ++ ", K"
  | .setDelay x => "LD DT, " ++ registerText x
  | .setSound x => "LD ST, " ++ registerText x
  | .addIndex x => "ADD I, " ++ registerText x
  | .fontIndex x => "LD F, " ++ registerText x
  | .storeDecimal x => "LD B, " ++ registerText x
  | .storeRegisters x => "LD [I], " ++ registerText x
  | .loadRegisters x => "LD " ++ registerText x ++ ", [I]"

end Chip8.Instruction
