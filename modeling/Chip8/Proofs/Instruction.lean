import Chip8.Instruction

/-! # Operands of decoded words

An operand takes its value from a bit field, so that of a decoded word is a digit, a byte or an
address. `Encodable` says it for every operation; a call of the host computer must also leave the
two words alone that mean something else. -/

namespace Chip8

namespace Instruction

/-- What fits a field of four bits: a register or the height of a sprite. -/
def IsDigit (x : Int) : Prop := 0 ≤ x ∧ x < 0x10

/-- What fits a field of eight bits. -/
def IsByte (kk : Int) : Prop := 0 ≤ kk ∧ kk < 0x100

/-- What fits a field of twelve bits. -/
def IsAddress (nnn : Int) : Prop := 0 ≤ nnn ∧ nnn < 0x1000

/-- Whether all operands fit the fields that they are read from. -/
def Encodable : Instruction → Prop
  | .sys nnn => IsAddress nnn ∧ nnn % 0x100 ≠ 0xE0 ∧ nnn % 0x100 ≠ 0xEE
  | .clear | .ret => True
  | .jump nnn | .call nnn | .setIndex nnn | .jumpOffset nnn => IsAddress nnn
  | .skipEqByte x kk | .skipNeByte x kk | .loadByte x kk | .addByte x kk | .random x kk =>
    IsDigit x ∧ IsByte kk
  | .skipEq x y | .skipNe x y | .move x y | .or x y | .and x y | .xor x y | .add x y | .sub x y
  | .shiftRight x y | .subFrom x y => IsDigit x ∧ IsDigit y
  | .draw x y n => IsDigit x ∧ IsDigit y ∧ IsDigit n
  | .shiftLeft x | .skipPressed x | .skipReleased x | .readDelay x | .waitKey x | .setDelay x
  | .setSound x | .addIndex x | .fontIndex x | .storeDecimal x | .storeRegisters x
  | .loadRegisters x => IsDigit x

theorem toNat_ofInt_of_isByte {kk : Int} (h : IsByte kk) :
    (UInt8.ofInt kk).toNat = kk.toNat := by
  obtain ⟨hlow, hhigh⟩ := h
  unfold UInt8.ofInt
  rw [UInt8.toNat_ofNat']
  omega

variable {op : Opcode} {inst : Instruction}

theorem isDigit_x (op : Opcode) : IsDigit op.x := by unfold IsDigit Opcode.x; omega

theorem isDigit_y (op : Opcode) : IsDigit op.y := by unfold IsDigit Opcode.y; omega

theorem isDigit_n (op : Opcode) : IsDigit op.n := by unfold IsDigit Opcode.n; omega

theorem isByte_kk (op : Opcode) : IsByte op.kk := by unfold IsByte Opcode.kk; omega

theorem isAddress_nnn (op : Opcode) : IsAddress op.nnn := by unfold IsAddress Opcode.nnn; omega

theorem encodable_of_decodeArithmetic? (h : decodeArithmetic? op = some inst) :
    inst.Encodable := by
  unfold decodeArithmetic? at h
  split at h <;> cases h
  case h_9 => exact isDigit_x op
  all_goals exact ⟨isDigit_x op, isDigit_y op⟩

theorem encodable_of_decodeKey? (h : decodeKey? op = some inst) : inst.Encodable := by
  unfold decodeKey? at h
  split at h <;> cases h
  all_goals exact isDigit_x op

theorem encodable_of_decodeTransfer? (h : decodeTransfer? op = some inst) : inst.Encodable := by
  unfold decodeTransfer? at h
  split at h <;> cases h
  all_goals exact isDigit_x op

/-- The words of group 0 that are neither of the two with a meaning of their own. -/
theorem encodable_sys (h0 : op.kk ≠ 0xE0) (hE : op.kk ≠ 0xEE) :
    (Instruction.sys op.nnn).Encodable := by
  have hk : (op.nnn : Int) % 0x100 = op.kk := by unfold Opcode.nnn Opcode.kk; omega
  exact ⟨isAddress_nnn op, by rw [hk]; omega, by rw [hk]; omega⟩

/-- The operands of a decoded word fit their fields. -/
theorem encodable_of_decode? (h : decode? op = some inst) : inst.Encodable := by
  unfold decode? at h
  split at h
  case h_1 =>
    split at h
    · cases h; exact trivial
    · split at h
      · cases h; exact trivial
      · rename_i h0 hE
        cases h; exact encodable_sys h0 hE
  case h_9 => exact encodable_of_decodeArithmetic? h
  case h_15 => exact encodable_of_decodeKey? h
  case h_16 => exact encodable_of_decodeTransfer? h
  case h_14 => cases h; exact ⟨isDigit_x op, isDigit_y op, isDigit_n op⟩
  case h_6 | h_10 => cases h; exact ⟨isDigit_x op, isDigit_y op⟩
  case h_2 | h_3 | h_11 | h_12 => cases h; exact isAddress_nnn op
  all_goals cases h; exact ⟨isDigit_x op, isByte_kk op⟩

end Instruction

end Chip8
