import Chip8.Proofs.Machine.Effect

/-! # Arithmetic with carries

Five instructions leave in the flag register what does not fit into a byte: a carry, the absence of
a borrow, or the bit that was shifted out. Result and flag together are the exact result, whatever
registers the operands come from. Addition and both subtractions set the flag last, the shifts set
it first, and that makes a difference only if the result goes to the flag register itself. -/

namespace Chip8.Machine

/-- The value of a flag. -/
def bit (on : Bool) : UInt8 := if on then 1 else 0

theorem toNat_bit (on : Bool) : (bit on).toNat = on.toNat := by cases on <;> rfl

theorem toNat_decide (p : Prop) [Decidable p] : (decide p).toNat = if p then 1 else 0 := by
  by_cases h : p
  · rw [decide_eq_true h, if_pos h, Bool.toNat_true]
  · rw [decide_eq_false h, if_neg h, Bool.toNat_false]

/-! ## The order of result and flag -/

theorem reg_flag_last (m : Machine) (x : Int) (b : UInt8) (on : Bool) :
    (((m.setReg x b).setFlag on).next).reg flagRegister = bit on ∧
      (register x ≠ register flagRegister → (((m.setReg x b).setFlag on).next).reg x = b) := by
  constructor
  · exact (reg_setReg _ flagRegister flagRegister _).trans (if_pos rfl)
  · intro hx
    exact (reg_setReg _ flagRegister x _).trans
      ((if_neg hx).trans ((reg_setReg m x x b).trans (if_pos rfl)))

theorem reg_flag_first (m : Machine) (x : Int) (f : UInt8 → UInt8) (on : Bool) :
    let m' := ((m.setFlag on).setReg x (f ((m.setFlag on).reg x))).next
    (register x = register flagRegister → m'.reg flagRegister = f (bit on)) ∧
      (register x ≠ register flagRegister →
        m'.reg flagRegister = bit on ∧ m'.reg x = f (m.reg x)) := by
  have hflagged : ∀ z, (m.setFlag on).reg z =
      if register z = register flagRegister then bit on else m.reg z :=
    fun z => reg_setReg m flagRegister z (bit on)
  have hafter : ∀ z, (((m.setFlag on).setReg x (f ((m.setFlag on).reg x))).next).reg z =
      if register z = register x then f ((m.setFlag on).reg x) else (m.setFlag on).reg z :=
    fun z => reg_setReg (m.setFlag on) x z _
  constructor
  · intro hx
    rw [hafter, if_pos hx.symm, hflagged, if_pos hx]
  · intro hx
    refine ⟨?_, ?_⟩
    · rw [hafter, if_neg (Ne.symm hx), hflagged, if_pos rfl]
    · rw [hafter, if_pos rfl, hflagged, if_neg hx]

/-! ## The instructions that leave a flag -/

inductive Carrying
  | add
  | sub
  /-- Subtracts the other way round. -/
  | subFrom
  | shiftRight
  | shiftLeft

namespace Carrying

def instruction (x y : Int) : Carrying → Instruction
  | .add => .add x y
  | .sub => .sub x y
  | .subFrom => .subFrom x y
  | .shiftRight => .shiftRight x y
  | .shiftLeft => .shiftLeft x

/-- The byte that is left of the result. -/
def result (a b : UInt8) : Carrying → UInt8
  | .add => a + b
  | .sub => a - b
  | .subFrom => b - a
  | .shiftRight => a >>> 1
  | .shiftLeft => a <<< 1

/-- The flag that goes with it. -/
def flag (a b : UInt8) : Carrying → Bool
  | .add => 0xFF < a.toNat + b.toNat
  | .sub => b ≤ a
  | .subFrom => a ≤ b
  | .shiftRight => a.toNat % 2 = 1
  | .shiftLeft => 0x80 ≤ a

/-- How a result and its flag make up the exact result of the operands. -/
def Exact (a b result flag : Int) : Carrying → Prop
  | .add => result + 256 * flag = a + b
  | .sub => result = a - b + 256 * (1 - flag)
  | .subFrom => result = b - a + 256 * (1 - flag)
  | .shiftRight => a = 2 * result + flag
  | .shiftLeft => result + 256 * flag = 2 * a

/-- What is left in the flag register if the result goes there too: the flag where it comes last,
and the shifted flag where it comes first. -/
def inFlag (a b : Int) : Carrying → Int
  | .add => if 256 ≤ a + b then 1 else 0
  | .sub => if b ≤ a then 1 else 0
  | .subFrom => if a ≤ b then 1 else 0
  | .shiftRight => 0
  | .shiftLeft => if 128 ≤ a then 2 else 0

variable {a b : UInt8}

theorem exact_result (op : Carrying) :
    op.Exact a.toNat b.toNat (op.result a b).toNat (op.flag a b).toNat := by
  have ha := a.toNat_lt
  have hb := b.toNat_lt
  cases op with
  | add =>
    simp only [Exact, result, flag, UInt8.toNat_add, toNat_decide]
    split <;> omega
  | sub | subFrom =>
    simp only [Exact, result, flag, UInt8.toNat_sub, toNat_decide, UInt8.le_iff_toNat_le]
    split <;> omega
  | shiftRight =>
    have hshift : (a >>> 1).toNat = a.toNat / 2 := by
      rw [UInt8.toNat_shiftRight]
      exact Nat.shiftRight_eq_div_pow a.toNat 1
    simp only [Exact, result, flag, hshift, toNat_decide]
    split <;> omega
  | shiftLeft =>
    have hshift : (a <<< 1).toNat = 2 * a.toNat % 256 := by
      rw [UInt8.toNat_shiftLeft, Nat.mul_comm]
      exact congrArg (· % 256) (Nat.shiftLeft_eq a.toNat 1)
    have htop : (0x80 : UInt8).toNat = 128 := rfl
    simp only [Exact, result, flag, hshift, toNat_decide, UInt8.le_iff_toNat_le, htop]
    split <;> omega

/-- The flag register if it takes the result. -/
def onlyFlag (a b : UInt8) (op : Carrying) : UInt8 :=
  match op with
  | .add | .sub | .subFrom => bit (op.flag a b)
  | .shiftRight => bit (op.flag a b) >>> 1
  | .shiftLeft => bit (op.flag a b) <<< 1

theorem toNat_onlyFlag (op : Carrying) :
    ((op.onlyFlag a b).toNat : Int) = op.inFlag a.toNat b.toNat := by
  cases op with
  | add =>
    simp only [onlyFlag, toNat_bit, flag, inFlag, toNat_decide]
    split <;> split <;> omega
  | sub | subFrom =>
    simp only [onlyFlag, toNat_bit, flag, inFlag, toNat_decide, UInt8.le_iff_toNat_le]
    split <;> split <;> omega
  | shiftRight =>
    simp only [onlyFlag, inFlag]
    cases flag a b .shiftRight <;> rfl
  | shiftLeft =>
    have htop : (0x80 : UInt8) ≤ a ↔ (128 : Int) ≤ a.toNat := by
      rw [UInt8.le_iff_toNat_le]
      exact Int.ofNat_le.symm
    simp only [onlyFlag, inFlag, flag]
    by_cases h : (0x80 : UInt8) ≤ a
    · rw [if_pos (htop.mp h), decide_eq_true h]
      rfl
    · rw [if_neg fun hle => h (htop.mpr hle), decide_eq_false h]
      rfl

end Carrying

/-- What an instruction that leaves a flag does to the two registers. -/
theorem execute_carrying (m : Machine) (op : Carrying) (x y : Int) :
    ∃ m', m.execute (op.instruction x y) = done m' ∧
      (register x ≠ register flagRegister →
        m'.reg x = op.result (m.reg x) (m.reg y) ∧
          m'.reg flagRegister = bit (op.flag (m.reg x) (m.reg y))) ∧
      (register x = register flagRegister →
        m'.reg flagRegister = op.onlyFlag (m.reg x) (m.reg y)) := by
  cases op with
  | add | sub | subFrom =>
    refine ⟨_, rfl, fun hx => ⟨?_, ?_⟩, fun _ => ?_⟩
    · exact (reg_flag_last m x _ _).2 hx
    · exact (reg_flag_last m x _ _).1
    · exact (reg_flag_last m x _ _).1
  | shiftRight =>
    obtain ⟨hflag, hother⟩ := reg_flag_first m x (· >>> 1) ((m.reg x).toNat % 2 = 1)
    exact ⟨_, rfl, fun hx => (hother hx).symm, hflag⟩
  | shiftLeft =>
    obtain ⟨hflag, hother⟩ := reg_flag_first m x (· <<< 1) (0x80 ≤ m.reg x)
    exact ⟨_, rfl, fun hx => (hother hx).symm, hflag⟩

theorem register_ne {x y : Int} (hx : Instruction.IsDigit x) (hy : Instruction.IsDigit y)
    (h : x ≠ y) : register x ≠ register y := by
  intro heq
  have hval := congrArg Fin.val heq
  simp only [register, Fin.val_ofNat] at hval
  unfold Instruction.IsDigit at hx hy
  omega

theorem toNat_add_ofInt (a : UInt8) (kk : Int) :
    ((a + UInt8.ofInt kk).toNat : Int) = (a.toNat + kk) % 256 := by
  rw [UInt8.toNat_add, UInt8.ofInt, UInt8.toNat_ofNat']
  omega

/-- After an instruction that leaves a flag, result and flag make up the exact result of the old
values, and the flag is zero or one; in the flag register alone, only what `inFlag` says is left.
Adding a literal leaves the sum without its carry, and no flag. -/
theorem carries_exact (m : Machine) {x : Int} (hx : Instruction.IsDigit x) (y kk : Int) :
    (∀ op : Carrying, ∃ m', m.execute (op.instruction x y) = done m' ∧
      if x = flagRegister then
        ((m'.reg flagRegister).toNat : Int) = op.inFlag (m.reg x).toNat (m.reg y).toNat
      else
        (m'.reg flagRegister = 0 ∨ m'.reg flagRegister = 1) ∧
          op.Exact (m.reg x).toNat (m.reg y).toNat (m'.reg x).toNat (m'.reg flagRegister).toNat) ∧
    ∃ m', m.execute (.addByte x kk) = done m' ∧
      ((m'.reg x).toNat : Int) = ((m.reg x).toNat + kk) % 256 ∧
      (x ≠ flagRegister → m'.reg flagRegister = m.reg flagRegister) := by
  have hdigit : Instruction.IsDigit flagRegister := ⟨by decide, by decide⟩
  constructor
  · intro op
    obtain ⟨m', hm', hother, hflag⟩ := execute_carrying m op x y
    refine ⟨m', hm', ?_⟩
    split
    · rename_i hF
      rw [hflag (congrArg register hF)]
      exact op.toNat_onlyFlag
    · rename_i hF
      obtain ⟨hresult, hbit⟩ := hother (register_ne hx hdigit hF)
      rw [hresult, hbit, toNat_bit]
      refine ⟨?_, op.exact_result⟩
      cases op.flag (m.reg x) (m.reg y) with
      | false => exact Or.inl rfl
      | true => exact Or.inr rfl
  · refine ⟨_, rfl, ?_, fun hF => ?_⟩
    · rw [← toNat_add_ofInt]
      exact congrArg (fun b : UInt8 => (b.toNat : Int)) ((reg_setReg m x x _).trans (if_pos rfl))
    · exact (reg_setReg m x flagRegister _).trans
        (if_neg (Ne.symm (register_ne hx hdigit hF)))

/-- `V2` is less than `VF`, which is subtracted from it and then shifted. -/
def borrowing : Machine :=
  ((initial Memory.empty (CallStack.ofSize 0) (Screen.blank 1 1) false fun _ => 0).setReg 2
    0x10).setReg flagRegister 0x90

theorem carries_exact_borrowing :
    Instruction.IsDigit 2 ∧ Instruction.IsDigit flagRegister ∧
      (∃ m', borrowing.execute (.sub 2 flagRegister) = done m' ∧
        (m'.reg 2).toNat = 0x80 ∧ m'.reg flagRegister = 0) ∧
      ∃ m', borrowing.execute (.shiftLeft flagRegister) = done m' ∧
        (m'.reg flagRegister).toNat = 2 := by
  have h2 : Instruction.IsDigit 2 := ⟨by decide, by decide⟩
  have hF : Instruction.IsDigit flagRegister := ⟨by decide, by decide⟩
  have ha : (borrowing.reg 2).toNat = 0x10 := by decide
  have hb : (borrowing.reg flagRegister).toNat = 0x90 := by decide
  refine ⟨h2, hF, ?_, ?_⟩
  · obtain ⟨m', hm', hexact⟩ := (carries_exact borrowing h2 flagRegister 0).1 .sub
    rw [if_neg (by decide), ha, hb] at hexact
    obtain ⟨hflag, hsub⟩ := hexact
    refine ⟨m', hm', ?_⟩
    simp only [Carrying.Exact] at hsub
    rcases hflag with hflag | hflag
    · rw [hflag] at hsub
      refine ⟨?_, hflag⟩
      simp only [UInt8.toNat_zero] at hsub
      omega
    · rw [hflag] at hsub
      simp only [UInt8.toNat_one] at hsub
      omega
  · obtain ⟨m', hm', hflag⟩ := (carries_exact borrowing hF 0 0).1 .shiftLeft
    rw [if_pos rfl, hb] at hflag
    exact ⟨m', hm', Int.ofNat_inj.mp hflag⟩

end Chip8.Machine
