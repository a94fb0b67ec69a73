import Chip8.Machine.Execute
import Chip8.Proofs.CallStack
import Chip8.Proofs.Instruction
import Chip8.Proofs.Memory
import Chip8.Proofs.Screen

/-! # What an instruction does to each part of the machine

Most parts are a function of the state before, whether the instruction is stopped or not: `Effect`.
The stack changes under calls and returns only. The program counter of an instruction that was
executed is `pcAfter`. An instruction that was stopped has changed nothing but memory, and memory
only if it was writing decimal digits. -/

namespace Chip8.Machine

/-- The index after an instruction. -/
def indexAfter (m : Machine) : Instruction → Int
  | .setIndex nnn => nnn
  | .addIndex x => m.i + (m.reg x).toNat
  | .fontIndex x => (m.reg x).toNat * glyphSize
  | _ => m.i

/-- The delay timer after an instruction. -/
def delayAfter (m : Machine) : Instruction → Int
  | .setDelay x => (m.reg x).toNat
  | _ => m.dt

/-- The sound timer after an instruction. -/
def soundAfter (m : Machine) : Instruction → Int
  | .setSound x => (m.reg x).toNat
  | _ => m.st

/-- Random numbers drawn, after an instruction. -/
def drawsAfter (m : Machine) : Instruction → Nat
  | .random _ _ => m.draws + 1
  | _ => m.draws

/-- The parts of the state that no fault and no other part has a say in. -/
structure Effect (m : Machine) (inst : Instruction) (m' : Machine) : Prop where
  i : m'.i = m.indexAfter inst
  dt : m'.dt = m.delayAfter inst
  st : m'.st = m.soundAfter inst
  draws : m'.draws = m.drawsAfter inst
  keys : m'.keys = m.keys
  ticks : m'.ticks = m.ticks
  opcode : m'.opcode = m.opcode
  live : m'.live = m.live
  random : m'.random = m.random
  beeps : m'.beeps = m.beeps
  printed : m'.printed = m.printed

theorem execute_effect (m : Machine) (inst : Instruction) :
    Effect m inst (m.execute inst).machine := by
  cases inst
  all_goals
    simp only [execute, drawSprite, skipOnKey, next, skipIf, setFlag, setReg, setRegisters, done,
      stopped]
    repeat' split
    all_goals exact ⟨rfl, rfl, rfl, rfl, rfl, rfl, rfl, rfl, rfl, rfl, rfl⟩

/-- The stack changes under a call that finds a free slot and a return that finds an entry. -/
theorem execute_stack_cases (m : Machine) (inst : Instruction) :
    (m.execute inst).machine.stack = m.stack ∨
      (∃ nnn stack, inst = .call nnn ∧ m.stack.push (m.pc + instructionSize) = .ok stack ∧
        m.execute inst = done { m with stack := stack, pc := nnn }) ∨
      (∃ address stack, inst = .ret ∧ m.stack.pop = .ok (address, stack) ∧
        m.execute inst = done { m with stack := stack, pc := address }) := by
  cases inst
  case call nnn =>
    cases hp : m.stack.push (m.pc + instructionSize) with
    | ok stack => exact Or.inr (Or.inl ⟨nnn, stack, rfl, rfl, by simp only [execute, hp]⟩)
    | error f => exact Or.inl (by simp only [execute, hp, stopped])
  case ret =>
    cases hp : m.stack.pop with
    | ok r => exact Or.inr (Or.inr ⟨r.1, r.2, rfl, rfl, by simp only [execute, hp]⟩)
    | error f => exact Or.inl (by simp only [execute, hp, stopped])
  all_goals
    left
    simp only [execute, drawSprite, skipOnKey, next, skipIf, setFlag, setReg, setRegisters, done,
      stopped]
    repeat' split
    all_goals rfl

/-- The screen changes under the two instructions that draw, and they leave the flag up. -/
theorem execute_screen_cases (m : Machine) (inst : Instruction) :
    (m.execute inst).machine.screen = m.screen ∨
      (m.execute inst).machine.screen.redraw = true ∧
        (inst = .clear ∨ ∃ x y n, inst = .draw x y n) := by
  cases inst
  case clear => exact Or.inr ⟨rfl, Or.inl rfl⟩
  case draw x y n =>
    simp only [execute, drawSprite]
    split
    · exact Or.inl rfl
    · split
      · exact Or.inl rfl
      · exact Or.inr ⟨rfl, Or.inr ⟨x, y, n, rfl⟩⟩
  all_goals
    left
    simp only [execute, skipOnKey, next, skipIf, setFlag, setReg, setRegisters, done, stopped]
    repeat' split
    all_goals rfl

theorem length_registersUpTo (m : Machine) {x : Int} (hx : Instruction.IsDigit x) :
    ((m.registersUpTo x).length : Int) = x + 1 := by
  obtain ⟨hlow, hhigh⟩ := hx
  unfold registersUpTo
  rw [List.length_take, Vector.length_toList]
  omega

theorem registersUpTo_ne_nil (m : Machine) {x : Int} (hx : Instruction.IsDigit x) :
    m.registersUpTo x ≠ [] := by
  have hlen := length_registersUpTo m hx
  have hlow := hx.1
  intro hnil
  rw [hnil, List.length_nil] at hlen
  omega

theorem size_execute (m : Machine) (inst : Instruction) :
    (m.execute inst).machine.memory.size = m.memory.size := by
  cases inst
  case storeDecimal x =>
    simp only [execute]
    split
    · exact Memory.size_storeEach _ _ _
    · exact Memory.size_storeEach _ _ _
  case storeRegisters x =>
    simp only [execute]
    split
    · rename_i h
      exact Memory.size_of_writeBlock h
    · rfl
  all_goals
    simp only [execute, drawSprite, skipOnKey, next, skipIf, setFlag, setReg, setRegisters, done,
      stopped]
    repeat' split
    all_goals rfl

theorem sameShape_execute (m : Machine) (inst : Instruction) :
    m.screen.SameShape (m.execute inst).machine.screen := by
  cases inst
  case draw x y n =>
    simp only [execute, drawSprite]
    split
    · exact ⟨rfl, rfl⟩
    · split
      · exact ⟨rfl, rfl⟩
      · rename_i h
        have hs := Screen.drawSprite_sameShape h
        exact ⟨hs.1, hs.2⟩
  all_goals
    simp only [execute, skipOnKey, next, skipIf, setFlag, setReg, setRegisters, done, stopped]
    repeat' split
    all_goals exact ⟨rfl, rfl⟩

theorem reg_setReg (m : Machine) (x y : Int) (b : UInt8) :
    (m.setReg x b).reg y = if register y = register x then b else m.reg y := by
  have hget : (m.setReg x b).reg y = (m.v.setIfInBounds (register x) b)[(register y : Nat)] := rfl
  rw [hget, Vector.getElem_setIfInBounds]
  by_cases h : register y = register x
  · rw [if_pos h, if_pos (congrArg Fin.val h.symm)]
  · rw [if_neg h, if_neg (fun he => h (Fin.ext he.symm))]
    rfl

/-! ## The program counter -/

/-- Whether the instruction after this one is left out. -/
def skips (m : Machine) : Instruction → Bool
  | .skipEqByte x kk => (m.reg x).toNat == kk
  | .skipNeByte x kk => (m.reg x).toNat != kk
  | .skipEq x y => m.reg x == m.reg y
  | .skipNe x y => m.reg x != m.reg y
  | .skipPressed x => m.keyDown? x == some true
  | .skipReleased x => m.keyDown? x == some false
  | _ => false

/-- Where an instruction that is executed goes on. -/
def pcAfter (m : Machine) (inst : Instruction) : Int :=
  match inst with
  | .jump nnn | .call nnn => nnn
  | .jumpOffset nnn => (m.reg 0).toNat + nnn
  | .ret => m.stack.items.getLastD m.pc
  | .waitKey _ => if m.firstKey? = none then m.pc else m.pc + 2
  | _ => if m.skips inst then m.pc + 4 else m.pc + 2

theorem skipIf_pc (m : Machine) (condition : Bool) :
    (m.skipIf condition).pc = if condition then m.pc + 4 else m.pc + 2 := by
  cases condition <;> rfl

theorem fault_skipOnKey (m : Machine) (x : Int) (pressed : Bool) :
    (m.skipOnKey x pressed).fault =
      if 15 < (m.reg x).toNat then some (.key (m.reg x) x m.pc) else none := by
  unfold skipOnKey
  cases hk : m.keyDown? x with
  | none =>
    have hout : 16 ≤ (m.reg x).toNat := Vector.getElem?_eq_none_iff.mp hk
    rw [if_pos (by omega)]
    rfl
  | some down =>
    obtain ⟨hin, _⟩ := Vector.getElem?_eq_some_iff.mp hk
    rw [if_neg (by omega)]
    rfl

theorem skipOnKey_pc {m : Machine} {x : Int} {pressed : Bool}
    (h : (m.skipOnKey x pressed).fault = none) :
    (m.skipOnKey x pressed).machine.pc =
      if m.keyDown? x = some pressed then m.pc + 4 else m.pc + 2 := by
  unfold skipOnKey at h ⊢
  cases hk : m.keyDown? x with
  | none => simp [hk, stopped] at h
  | some down => simp [done, skipIf_pc]

theorem drawSprite_pc {m : Machine} {x y n : Int} (h : (m.drawSprite x y n).fault = none) :
    (m.drawSprite x y n).machine.pc = m.pc + 2 := by
  unfold drawSprite at h ⊢
  split at h
  · cases h
  · split at h
    · cases h
    · rfl

theorem execute_pc {m : Machine} {inst : Instruction} (h : (m.execute inst).fault = none) :
    (m.execute inst).machine.pc = m.pcAfter inst := by
  cases inst
  case ret =>
    cases hp : m.stack.pop with
    | ok r =>
      obtain ⟨_, _, hitems⟩ := CallStack.pop_eq_ok hp
      simp [execute, hp, pcAfter, hitems, done]
    | error f => simp [execute, hp, stopped] at h
  case call nnn =>
    cases hp : m.stack.push (m.pc + instructionSize) with
    | ok stack => simp [execute, hp, pcAfter, done]
    | error f => simp [execute, hp, stopped] at h
  case skipEqByte x kk => exact skipIf_pc m _
  case skipNeByte x kk => exact skipIf_pc m _
  case skipEq x y => exact skipIf_pc m _
  case skipNe x y => exact skipIf_pc m _
  case skipPressed x => exact (skipOnKey_pc h).trans (by simp [pcAfter, skips])
  case skipReleased x => exact (skipOnKey_pc h).trans (by simp [pcAfter, skips])
  case draw x y n => exact drawSprite_pc h
  case waitKey x =>
    cases hk : m.firstKey? with
    | some key => simp [execute, hk, pcAfter, done, next, setReg, instructionSize]
    | none => simp [execute, hk, pcAfter, done]
  case readDelay x | storeDecimal x | storeRegisters x | loadRegisters x =>
    revert h
    simp only [execute, next, setReg, setRegisters, done, stopped]
    split <;> intro h
    all_goals first | rfl | cases h
  all_goals rfl

/-! ## Instructions that are stopped -/

/-- A stopped instruction leaves everything but memory as it was. -/
theorem execute_of_fault {m : Machine} {inst : Instruction} {f : Fault}
    (h : (m.execute inst).fault = some f) :
    (m.execute inst).machine = { m with memory := (m.execute inst).machine.memory } := by
  cases inst
  all_goals
    revert h
    simp only [execute, drawSprite, skipOnKey]
    repeat' split
    all_goals intro h; cases h <;> rfl

/-- It leaves memory too, unless it was to write decimal digits. -/
theorem memory_of_fault {m : Machine} {inst : Instruction} {f : Fault}
    (h : (m.execute inst).fault = some f) (hn : ∀ x, inst ≠ .storeDecimal x) :
    (m.execute inst).machine.memory = m.memory := by
  cases inst
  case storeDecimal x => exact absurd rfl (hn x)
  all_goals
    revert h
    simp only [execute, drawSprite, skipOnKey]
    repeat' split
    all_goals intro h; cases h <;> rfl

theorem memory_storeDecimal (m : Machine) (x : Int) :
    (m.execute (.storeDecimal x)).machine.memory =
      (m.memory.storeEach m.i (decimalDigits (m.reg x))).1 := by
  simp only [execute]
  split <;> rfl

/-- The decimal digits that reach memory are those whose addresses exist. -/
theorem byteAt_storeDecimal {m : Machine} (hi : 0 ≤ m.i) (x : Int) {a : Nat}
    (ha : a < m.memory.size) :
    ((m.execute (.storeDecimal x)).machine.memory.byteAt a).toNat =
      if (a : Int) = m.i then (m.reg x).toNat / 100
      else if (a : Int) = m.i + 1 then (m.reg x).toNat / 10 % 10
      else if (a : Int) = m.i + 2 then (m.reg x).toNat % 10
      else (m.memory.byteAt a).toNat := by
  have hlen : (decimalDigits (m.reg x)).length = 3 := rfl
  rw [memory_storeDecimal, Memory.byteAt_storeEach m.memory hi _ ha, hlen]
  by_cases h0 : (a : Int) = m.i
  · have hk : a - m.i.toNat = 0 := by omega
    rw [if_pos (by omega), if_pos h0, hk]
    rfl
  · rw [if_neg h0]
    by_cases h1 : (a : Int) = m.i + 1
    · have hk : a - m.i.toNat = 1 := by omega
      rw [if_pos (by omega), if_pos h1, hk]
      rfl
    · rw [if_neg h1]
      by_cases h2 : (a : Int) = m.i + 2
      · have hk : a - m.i.toNat = 2 := by omega
        rw [if_pos (by omega), if_pos h2, hk]
        rfl
      · rw [if_neg (by omega), if_neg h2]

/-! ## What no instruction looks at -/

/-- The same machine with another word noted, another trace and other texts printed. -/
def withLog (m : Machine) (opcode : Int) (live : Bool) (printed : Array String) : Machine :=
  { m with opcode := opcode, live := live, printed := printed }

def Outcome.withLog (out : Outcome) (opcode : Int) (live : Bool) (printed : Array String) :
    Outcome :=
  ⟨out.machine.withLog opcode live printed, out.fault⟩

/-- An instruction looks neither at the word that it comes from nor at the trace. -/
theorem execute_withLog (m : Machine) (opcode : Int) (live : Bool) (printed : Array String)
    (inst : Instruction) :
    (m.withLog opcode live printed).execute inst =
      (m.execute inst).withLog opcode live printed := by
  have hmemory : (m.withLog opcode live printed).memory = m.memory := rfl
  have hstack : (m.withLog opcode live printed).stack = m.stack := rfl
  have hscreen : (m.withLog opcode live printed).screen = m.screen := rfl
  have hi : (m.withLog opcode live printed).i = m.i := rfl
  have hdt : (m.withLog opcode live printed).dt = m.dt := rfl
  have hpc : (m.withLog opcode live printed).pc = m.pc := rfl
  have hreg : ∀ x, (m.withLog opcode live printed).reg x = m.reg x := fun _ => rfl
  have hregisters : ∀ x,
      (m.withLog opcode live printed).registersUpTo x = m.registersUpTo x := fun _ => rfl
  have hkey : ∀ x, (m.withLog opcode live printed).keyDown? x = m.keyDown? x := fun _ => rfl
  have hfirst : (m.withLog opcode live printed).firstKey? = m.firstKey? := rfl
  cases inst
  all_goals
    simp only [execute, drawSprite, skipOnKey, hmemory, hstack, hscreen, hi, hdt, hpc, hreg,
      hregisters, hkey, hfirst]
    repeat' split
    all_goals rfl

end Chip8.Machine
