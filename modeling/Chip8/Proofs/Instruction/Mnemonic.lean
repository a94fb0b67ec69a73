import Chip8.Instruction.Mnemonic
import Chip8.Proofs.Text.Hex

/-! # Mnemonics read back

A mnemonic is a name and up to three operands, and its text can be cut into these parts at the
blanks once the commas are dropped. `assemble?` makes the instruction out of the parts. It finds
every instruction again but for what its text does not show, the second register of a right
shift, so no two other instructions have the same text. -/

namespace Chip8.Instruction

open Text

/-! ## The parts of a text -/

def registerChars (x : Int) : List Char := 'V' :: hexChars 1 x

def numberChars (width : Nat) (n : Int) : List Char := '0' :: 'x' :: hexChars width n

/-- The name of an instruction and the operands after it. -/
def parts : Instruction → List (List Char)
  | .sys nnn => ["SYS".toList, numberChars 3 nnn]
  | .clear => ["CLS".toList]
  | .ret => ["RET".toList]
  | .jump nnn => ["JP".toList, numberChars 3 nnn]
  | .call nnn => ["CALL".toList, numberChars 3 nnn]
  | .skipEqByte x kk => ["SE".toList, registerChars x, numberChars 2 kk]
  | .skipNeByte x kk => ["SNE".toList, registerChars x, numberChars 2 kk]
  | .skipEq x y => ["SE".toList, registerChars x, registerChars y]
  | .loadByte x kk => ["LD".toList, registerChars x, numberChars 2 kk]
  | .addByte x kk => ["ADD".toList, registerChars x, numberChars 2 kk]
  | .move x y => ["LD".toList, registerChars x, registerChars y]
  | .or x y => ["OR".toList, registerChars x, registerChars y]
  | .and x y => ["AND".toList, registerChars x, registerChars y]
  | .xor x y => ["XOR".toList, registerChars x, registerChars y]
  | .add x y => ["ADD".toList, registerChars x, registerChars y]
  | .sub x y => ["SUB".toList, registerChars x, registerChars y]
  | .shiftRight x _ => ["SHR".toList, registerChars x]
  | .subFrom x y => ["SUBN".toList, registerChars x, registerChars y]
  | .shiftLeft x => ["SHL".toList, registerChars x]
  | .skipNe x y => ["SNE".toList, registerChars x, registerChars y]
  | .setIndex nnn => ["LD".toList, "I".toList, numberChars 3 nnn]
  | .jumpOffset nnn => ["JP".toList, "V0".toList, numberChars 3 nnn]
  | .random x kk => ["RND".toList, registerChars x, numberChars 2 kk]
  | .draw x y n => ["DRW".toList, registerChars x, registerChars y, numberChars 1 n]
  | .skipPressed x => ["SKP".toList, registerChars x]
  | .skipReleased x => ["SKNP".toList, registerChars x]
  | .readDelay x => ["LD".toList, registerChars x, "DT".toList]
  | .waitKey x => ["LD".toList, registerChars x, "K".toList]
  | .setDelay x => ["LD".toList, "DT".toList, registerChars x]
  | .setSound x => ["LD".toList, "ST".toList, registerChars x]
  | .addIndex x => ["ADD".toList, "I".toList, registerChars x]
  | .fontIndex x => ["LD".toList, "F".toList, registerChars x]
  | .storeDecimal x => ["LD".toList, "B".toList, registerChars x]
  | .storeRegisters x => ["LD".toList, "[I]".toList, registerChars x]
  | .loadRegisters x => ["LD".toList, registerChars x, "[I]".toList]

/-- Cuts a text at its blanks, without the commas. -/
def partsOf (text : String) : List (List Char) := (text.toList.filter (· != ',')).splitOn ' '

theorem filter_hexChars (width : Nat) (n : Int) :
    (hexChars width n).filter (· != ',') = hexChars width n := by
  rw [List.filter_eq_self]
  intro c hc
  have hne : c ≠ ',' := by
    intro h
    subst h
    exact notMem_hexChars (fun _ => Nat.digitChar_ne ',' rfl) (by decide) width n hc
  simpa using hne

theorem blank_notMem_parts (inst : Instruction) : ∀ part ∈ inst.parts, ' ' ∉ part := by
  have hhex : ∀ width n, ' ' ∉ hexChars width n :=
    notMem_hexChars (fun _ => Nat.digitChar_ne ' ' rfl) (by decide)
  cases inst <;> simp [parts, registerChars, numberChars, hhex]

theorem parts_ne_nil (inst : Instruction) : inst.parts ≠ [] := by
  cases inst <;> exact List.cons_ne_nil _ _

theorem filter_mnemonic (inst : Instruction) :
    inst.mnemonic.toList.filter (· != ',') = [' '].intercalate inst.parts := by
  cases inst <;>
    simp [mnemonic, withByte, withRegisters, registerText, nibbleText, byteText, addressText,
      hex, parts, registerChars, numberChars, filter_hexChars, List.intercalate]

/-- A text is cut into what it was put together from. -/
theorem partsOf_mnemonic (inst : Instruction) : partsOf inst.mnemonic = inst.parts := by
  rw [partsOf, filter_mnemonic]
  exact List.splitOn_intercalate ' ' inst.blank_notMem_parts inst.parts_ne_nil

/-! ## Assembling -/

/-- An operand as it is written. -/
inductive Operand
  | register (x : Int)
  | number (n : Int)
  | named (name : String)

def readOperand : List Char → Operand
  | 'V' :: cs => .register (readHex cs)
  | '0' :: 'x' :: cs => .number (readHex cs)
  | cs => .named (String.ofList cs)

/-- The instruction with this name and these operands, none if there is no such instruction. -/
def ofOperands? (name : String) : List Operand → Option Instruction
  | [] =>
    match name with
    | "CLS" => some .clear
    | "RET" => some .ret
    | _ => none
  | [.number n] =>
    match name with
    | "SYS" => some (.sys n)
    | "JP" => some (.jump n)
    | "CALL" => some (.call n)
    | _ => none
  | [.register x] =>
    match name with
    | "SHR" => some (.shiftRight x 0)
    | "SHL" => some (.shiftLeft x)
    | "SKP" => some (.skipPressed x)
    | "SKNP" => some (.skipReleased x)
    | _ => none
  | [.register x, .number n] =>
    match name with
    | "SE" => some (.skipEqByte x n)
    | "SNE" => some (.skipNeByte x n)
    | "LD" => some (.loadByte x n)
    | "ADD" => some (.addByte x n)
    | "RND" => some (.random x n)
    | "JP" => some (.jumpOffset n)
    | _ => none
  | [.register x, .register y] =>
    match name with
    | "SE" => some (.skipEq x y)
    | "SNE" => some (.skipNe x y)
    | "LD" => some (.move x y)
    | "OR" => some (.or x y)
    | "AND" => some (.and x y)
    | "XOR" => some (.xor x y)
    | "ADD" => some (.add x y)
    | "SUB" => some (.sub x y)
    | "SUBN" => some (.subFrom x y)
    | _ => none
  | [.register x, .named source] =>
    match name, source with
    | "LD", "DT" => some (.readDelay x)
    | "LD", "K" => some (.waitKey x)
    | "LD", "[I]" => some (.loadRegisters x)
    | _, _ => none
  | [.named target, .register x] =>
    match name, target with
    | "LD", "DT" => some (.setDelay x)
    | "LD", "ST" => some (.setSound x)
    | "LD", "F" => some (.fontIndex x)
    | "LD", "B" => some (.storeDecimal x)
    | "LD", "[I]" => some (.storeRegisters x)
    | "ADD", "I" => some (.addIndex x)
    | _, _ => none
  | [.named target, .number n] =>
    match name, target with
    | "LD", "I" => some (.setIndex n)
    | _, _ => none
  | [.register x, .register y, .number n] =>
    match name with
    | "DRW" => some (.draw x y n)
    | _ => none
  | _ => none

/-- The instruction that a mnemonic stands for. -/
def assemble? (text : String) : Option Instruction :=
  match partsOf text with
  | [] => none
  | name :: operands => ofOperands? (String.ofList name) (operands.map readOperand)

/-- The instruction as its text shows it. -/
def shown : Instruction → Instruction
  | .shiftRight x _ => .shiftRight x 0
  | inst => inst

theorem readOperand_registerChars (x : Int) : readOperand (registerChars x) = .register x := by
  simp [readOperand, registerChars, readHex_hexChars]

theorem readOperand_numberChars (width : Nat) (n : Int) :
    readOperand (numberChars width n) = .number n := by
  simp [readOperand, numberChars, readHex_hexChars]

theorem assemble?_mnemonic (inst : Instruction) :
    assemble? inst.mnemonic = some inst.shown := by
  rw [assemble?, partsOf_mnemonic]
  cases inst
  all_goals
    simp only [parts, List.map_cons, List.map_nil, readOperand_registerChars,
      readOperand_numberChars]
    rfl

variable {inst inst' : Instruction}

/-- The second register of a right shift is all that a text leaves out. -/
theorem eq_or_eq_shiftRight (inst : Instruction) :
    inst.shown = inst ∨ ∃ x y, inst = .shiftRight x y := by
  cases inst
  case shiftRight x y => exact Or.inr ⟨x, y, rfl⟩
  all_goals exact Or.inl rfl

theorem shown_eq_iff :
    inst.shown = inst'.shown ↔
      inst = inst' ∨ ∃ x y y', inst = .shiftRight x y ∧ inst' = .shiftRight x y' := by
  constructor
  · intro h
    rcases eq_or_eq_shiftRight inst with hinst | ⟨x, y, hinst⟩ <;>
      rcases eq_or_eq_shiftRight inst' with hinst' | ⟨x', y', hinst'⟩
    · left
      rw [← hinst, h, hinst']
    · right
      rw [hinst, hinst'] at h
      exact ⟨x', 0, y', h, hinst'⟩
    · right
      rw [hinst', hinst] at h
      exact ⟨x, y, 0, hinst, h.symm⟩
    · right
      rw [hinst, hinst'] at h
      simp only [shown, shiftRight.injEq, and_true] at h
      exact ⟨x, y, y', hinst, h ▸ hinst'⟩
  · intro h
    rcases h with rfl | ⟨x, y, y', rfl, rfl⟩
    · rfl
    · rfl

theorem mnemonic_eq_iff_shown : inst.mnemonic = inst'.mnemonic ↔ inst.shown = inst'.shown := by
  constructor
  · intro h
    have hread := assemble?_mnemonic inst
    rw [h, assemble?_mnemonic inst'] at hread
    exact (Option.some.inj hread).symm
  · intro h
    have hshown : ∀ i : Instruction, i.shown.mnemonic = i.mnemonic := by
      intro i
      cases i <;> rfl
    rw [← hshown inst, h, hshown inst']

/-- Two instructions have the same text exactly if they are the same, or shift the same register to
the right. -/
theorem mnemonic_eq_iff :
    inst.mnemonic = inst'.mnemonic ↔
      inst = inst' ∨ ∃ x y y', inst = .shiftRight x y ∧ inst' = .shiftRight x y' :=
  mnemonic_eq_iff_shown.trans shown_eq_iff

end Chip8.Instruction
