import Chip8.Proofs.Machine.Invariant

/-! # Steps that are stopped

`refusal?` is the cause for which an instruction is refused, computed from the state before the
step. In every reachable state it tells exactly which steps are stopped and by what. A step that is
stopped has counted itself and the timers down and has noted the word; the rest of the machine is as
it was, but for those decimal digits that still had an address. -/

namespace Chip8.Machine

variable {m : Machine} {inst : Instruction} {f : Fault}

/-- Why the standard machine refuses an instruction, none if it executes it. -/
def refusal? (m : Machine) : Instruction → Option Fault
  | .call _ => if m.stack.pointer = 16 then some (.stack .overflow) else none
  | .ret => if m.stack.pointer = 0 then some (.stack .underflow) else none
  | .skipPressed x | .skipReleased x =>
    if 15 < (m.reg x).toNat then some (.key (m.reg x) x m.pc) else none
  | .draw _ _ n =>
    if 1 ≤ n ∧ 0x1000 < m.i + n then some (.memory (.outOfRange (m.memory.blamed m.i n))) else none
  | .storeDecimal _ =>
    if 0x1000 < m.i + 3 then some (.memory (.outOfRange (max m.i 0x1000))) else none
  | .storeRegisters x | .loadRegisters x =>
    if 0x1000 < m.i + x + 1 then some (.memory (.outOfRange (m.memory.blamed m.i (x + 1))))
    else none
  | _ => none

/-! ## One instruction at a time -/

theorem fault_call (h : Invariant m) (nnn : Int) :
    (m.execute (.call nnn)).fault = m.refusal? (.call nnn) := by
  have hle := h.pointer_le
  have hdepth : m.stack.size.toNat = 16 := by rw [h.depth]; rfl
  simp only [execute, refusal?]
  cases hp : m.stack.push (m.pc + instructionSize) with
  | ok stack =>
    have hnot : m.stack.pointer ≠ 16 := by
      intro hfull
      have herror : m.stack.push (m.pc + instructionSize) = .error .overflow :=
        CallStack.push_eq_error_iff.mpr ⟨rfl, by omega⟩
      rw [hp] at herror
      cases herror
    rw [if_neg hnot]
    rfl
  | error f =>
    obtain ⟨rfl, hfull⟩ := CallStack.push_eq_error_iff.mp hp
    rw [if_pos (by omega)]
    rfl

theorem fault_ret (m : Machine) : (m.execute .ret).fault = m.refusal? .ret := by
  simp only [execute, refusal?]
  cases hp : m.stack.pop with
  | ok r =>
    obtain ⟨_, hpointer, _⟩ := CallStack.pop_eq_ok hp
    rw [if_neg (by omega)]
    rfl
  | error f =>
    obtain ⟨rfl, hempty⟩ := CallStack.pop_eq_error_iff.mp hp
    rw [if_pos hempty]
    rfl

theorem readBlock_index (h : Invariant m) {n : Int} (hn : 0 < n) :
    m.memory.readBlock m.i n =
      if 0x1000 < m.i + n then .error (.outOfRange (m.memory.blamed m.i n))
      else .ok (m.memory.slice m.i (m.i + n)) := by
  have hi := h.i.1
  rw [Memory.readBlock_eq m.memory m.i hn, h.memory]
  by_cases hin : 0x1000 < m.i + n
  · rw [if_pos hin, if_neg (by omega)]
  · rw [if_neg hin, if_pos (by omega)]

/-- Reading a block is the only way for a sprite to fail, and nothing is read for one of no rows. -/
theorem fault_drawSprite (h : Invariant m) (x y n : Int) :
    (m.drawSprite x y n).fault = m.refusal? (.draw x y n) := by
  have hdraw : ∀ rows, m.memory.readBlock m.i n = .ok rows → (m.drawSprite x y n).fault = none := by
    intro rows hr
    have hscreen : m.screen.fault? = none :=
      Screen.fault?_eq_none (by rw [h.width]; decide) (by rw [h.height]; decide)
    simp only [drawSprite, hr]
    cases hd : m.screen.drawSprite (m.reg x).toNat (m.reg y).toNat rows with
    | ok r => rfl
    | error f =>
      rw [Screen.fault_of_drawSprite hd] at hscreen
      cases hscreen
  simp only [refusal?]
  by_cases hpos : 0 < n
  · have hr := readBlock_index h hpos
    by_cases hin : 0x1000 < m.i + n
    · rw [if_pos hin] at hr
      rw [if_pos ⟨hpos, hin⟩]
      simp only [drawSprite, hr, stopped]
    · rw [if_neg hin] at hr
      rw [if_neg (fun hb => hin hb.2)]
      exact hdraw _ hr
  · rw [if_neg (fun hb => hpos hb.1)]
    exact hdraw _ (if_neg hpos)

theorem fault_storeDecimal (h : Invariant m) (x : Int) :
    (m.execute (.storeDecimal x)).fault = m.refusal? (.storeDecimal x) := by
  have hs := Memory.storeEach_fault m.memory h.i.1 (decimalDigits (m.reg x))
  rw [h.memory] at hs
  simp only [decimalDigits, reduceCtorEq, List.length_cons, List.length_nil, false_or] at hs
  simp only [execute, refusal?, decimalDigits, hs]
  by_cases hin : m.i + 3 ≤ 0x1000
  · rw [if_pos (by omega), if_neg (by omega)]
    rfl
  · rw [if_neg (by omega), if_pos (by omega)]
    rfl

theorem fault_storeRegisters (h : Invariant m) {x : Int} (hx : Instruction.IsDigit x) :
    (m.execute (.storeRegisters x)).fault = m.refusal? (.storeRegisters x) := by
  have hi := h.i.1
  have hsize := h.memory
  have hlen := length_registersUpTo m hx
  have hw := Memory.writeBlock_eq m.memory m.i (registersUpTo_ne_nil m hx)
  rw [hlen] at hw
  simp only [execute, refusal?]
  by_cases hin : m.i + x + 1 ≤ 0x1000
  · rw [if_pos (by omega)] at hw
    rw [if_neg (by omega), hw]
    rfl
  · rw [if_neg (by omega)] at hw
    rw [if_pos (by omega), hw]
    rfl

theorem fault_loadRegisters (h : Invariant m) {x : Int} (hx : Instruction.IsDigit x) :
    (m.execute (.loadRegisters x)).fault = m.refusal? (.loadRegisters x) := by
  have hpos : 0 < x + 1 := Int.lt_add_one_of_le hx.1
  have hr := readBlock_index h hpos
  simp only [execute, refusal?, Int.add_assoc]
  by_cases hin : 0x1000 < m.i + (x + 1)
  · rw [if_pos hin] at hr
    rw [if_pos hin, hr]
    rfl
  · rw [if_neg hin] at hr
    rw [if_neg hin, hr]
    rfl

theorem fault_readDelay (h : Invariant m) (x : Int) :
    (m.execute (.readDelay x)).fault = m.refusal? (.readDelay x) := by
  have hdt := h.dt
  simp only [execute, refusal?]
  rw [if_pos (by omega)]
  rfl

/-- No instruction is refused for a reason other than `refusal?`. -/
theorem execute_fault (h : Invariant m) (he : inst.Encodable) :
    (m.execute inst).fault = m.refusal? inst := by
  cases inst
  case call nnn => exact fault_call h nnn
  case ret => exact fault_ret m
  case skipPressed x => exact fault_skipOnKey m x true
  case skipReleased x => exact fault_skipOnKey m x false
  case draw x y n => exact fault_drawSprite h x y n
  case storeDecimal x => exact fault_storeDecimal h x
  case storeRegisters x => exact fault_storeRegisters h he
  case loadRegisters x => exact fault_loadRegisters h he
  case readDelay x => exact fault_readDelay h x
  case waitKey x =>
    simp only [execute]
    split <;> rfl
  all_goals rfl

/-! ## Steps -/

/-- Counting down and noting the word have no say in whether an instruction is refused. -/
theorem refusal?_begun (m : Machine) (inst : Instruction) :
    (m.begun inst).refusal? inst = m.refusal? inst := by
  cases inst <;> rfl

theorem Invariant.begun (h : Invariant m) (inst : Instruction) : Invariant (m.begun inst) :=
  h.fetched.printing _

theorem Invariant.step_fault (h : Invariant m) :
    m.step.fault = if m.halted then none else m.current?.bind m.refusal? := by
  rcases step_cases h.pc.1 with ⟨hh, hs⟩ | ⟨hh, hc, hs⟩ | ⟨inst, hh, hc, hs⟩
  · rw [hs, hh]
    rfl
  · rw [hs, hh, hc]
    rfl
  · rw [hs, hh, hc, execute_fault (h.begun inst) (encodable_of_current? hc), refusal?_begun]
    rfl

theorem refusal?_cases (h : m.refusal? inst = some f) :
    (f = .stack .overflow ∨ f = .stack .underflow) ∨ (∃ number x, f = .key number x m.pc) ∨
      ∃ address, f = .memory (.outOfRange address) := by
  cases inst
  case call nnn | ret =>
    simp only [refusal?, Option.ite_none_right_eq_some, Option.some.injEq] at h
    simp [← h.2]
  case skipPressed x | skipReleased x =>
    simp only [refusal?, Option.ite_none_right_eq_some, Option.some.injEq] at h
    exact Or.inr (Or.inl ⟨m.reg x, x, h.2.symm⟩)
  case draw x y n =>
    simp only [refusal?, Option.ite_none_right_eq_some, Option.some.injEq] at h
    exact Or.inr (Or.inr ⟨_, h.2.symm⟩)
  case storeDecimal x | storeRegisters x | loadRegisters x =>
    simp only [refusal?, Option.ite_none_right_eq_some, Option.some.injEq] at h
    exact Or.inr (Or.inr ⟨_, h.2.symm⟩)
  all_goals cases h

/-- A step of a reachable machine is stopped exactly if the machine runs and refuses the instruction
at the program counter, and then by a fault of the stack, of a key or of an address. Fetching the
word never fails. -/
theorem Reachable.step_fault_iff (h : Reachable m) :
    (m.halted = false → m.fetch = .ok m.word) ∧
      (∀ f, m.step.fault = some f ↔
        m.halted = false ∧ ∃ inst, m.current? = some inst ∧ m.refusal? inst = some f) ∧
      ∀ f, m.step.fault = some f →
        (f = .stack .overflow ∨ f = .stack .underflow) ∨ (∃ number x, f = .key number x m.pc) ∨
          ∃ address, f = .memory (.outOfRange address) := by
  have hiff : ∀ f, m.step.fault = some f ↔
      m.halted = false ∧ ∃ inst, m.current? = some inst ∧ m.refusal? inst = some f := by
    intro f
    rw [h.invariant.step_fault]
    cases hh : m.halted with
    | true => simp
    | false => simp [Option.bind_eq_some_iff]
  refine ⟨fetch_eq h.invariant.pc.1, hiff, ?_⟩
  intro f hf
  obtain ⟨_, inst, _, hr⟩ := (hiff f).mp hf
  exact refusal?_cases hr

/-- A program that loads 253 into `V0` and the last address but one into the index, and then comes
to store three digits there. -/
def digitsAtEnd : List UInt8 := [0x60, 0xFD, 0xAF, 0xFE, 0xF0, 0x33]

/-- The machine that is about to store them. -/
def atEnd : Machine := (boot digitsAtEnd false fun _ => 0).after [.step, .step]

theorem reachable_boot_digitsAtEnd : Reachable (boot digitsAtEnd false fun _ => 0) :=
  .boot _ _ (by decide)

theorem reachable_atEnd : Reachable atEnd := reachable_boot_digitsAtEnd.after [.step, .step]

theorem digitsAtEnd_third (h : Reachable m) (hpc : m.pc = 0x200)
    (hb : ∀ a, m.memory.byteAt a = Rom.imageAt digitsAtEnd a) :
    (m.after [.step, .step]).halted = false ∧
      (m.after [.step, .step]).current? = some (.storeDecimal 0) ∧
      (m.after [.step, .step]).i = 0xFFE ∧ (m.after [.step, .step]).reg 0 = 0xFD := by
  obtain ⟨_, _, hs⟩ := h.step_of_bytes 0x200 (.loadByte 0 0xFD) hpc (by decide)
    (hb _) (hb _) rfl
  have h1 := h.act .step
  simp only [after, List.foldl, act, hs] at h1 ⊢
  obtain ⟨_, _, hs1⟩ := h1.step_of_bytes 0x202 (.setIndex 0xFFE)
    (congrArg (· + 2) hpc) (by decide) (hb _) (hb _) rfl
  have h2 := h1.act .step
  simp only [act, hs1] at h2 ⊢
  obtain ⟨hh, hc, _⟩ := h2.step_of_bytes 0x204 (.storeDecimal 0)
    (congrArg (· + 2 + 2) hpc) (by decide) (hb _) (hb _) rfl
  exact ⟨hh, hc, rfl, reg_setReg (m.begun (.loadByte 0 0xFD)) 0 0 0xFD⟩

theorem atEnd_eq : atEnd.halted = false ∧ atEnd.current? = some (.storeDecimal 0) ∧
    atEnd.i = 0xFFE ∧ atEnd.reg 0 = 0xFD :=
  digitsAtEnd_third reachable_boot_digitsAtEnd rfl (byteAt_boot (by decide) _ _)

theorem refusal?_atEnd :
    atEnd.refusal? (.storeDecimal 0) = some (.memory (.outOfRange 0x1000)) := by
  simp only [refusal?, atEnd_eq.2.2.1]
  rfl

theorem step_fault_iff_atEnd :
    Reachable atEnd ∧ atEnd.step.fault = some (.memory (.outOfRange 0x1000)) :=
  ⟨reachable_atEnd, (reachable_atEnd.step_fault_iff.2.1 _).mpr
    ⟨atEnd_eq.1, .storeDecimal 0, atEnd_eq.2.1, refusal?_atEnd⟩⟩

/-! ## What a stopped step leaves -/

/-- The machine `m'` after a step of `m` that was stopped in `inst`. -/
structure Stopped (m : Machine) (inst : Instruction) (m' : Machine) : Prop where
  ticks : m'.ticks = m.ticks + 1
  dt : m'.dt = if m.dt = 0 then 0 else m.dt - 1
  st : m'.st = if m.st = 0 then 0 else m.st - 1
  beeps : m'.beeps = if m.st = 0 then m.beeps else m.beeps + 1
  opcode : m'.opcode = m.word
  v : m'.v = m.v
  i : m'.i = m.i
  pc : m'.pc = m.pc
  stack : m'.stack = m.stack
  screen : m'.screen = m.screen
  keys : m'.keys = m.keys
  draws : m'.draws = m.draws
  random : m'.random = m.random
  live : m'.live = m.live
  printed : m'.printed =
    if m.live then m.printed.push (m'.traceLine inst.mnemonic) else m.printed
  size : m'.memory.size = m.memory.size
  memory : (∀ x, inst ≠ .storeDecimal x) → m'.memory = m.memory
  digits : ∀ x, inst = .storeDecimal x → ∀ a < m.memory.size,
    (m'.memory.byteAt a).toNat =
      if (a : Int) = m.i then (m.reg x).toNat / 100
      else if (a : Int) = m.i + 1 then (m.reg x).toNat / 10 % 10
      else if (a : Int) = m.i + 2 then (m.reg x).toNat % 10
      else (m.memory.byteAt a).toNat

theorem stopped_of_begun (h : Invariant m) (hf : ((m.begun inst).execute inst).fault = some f) :
    Stopped m inst ((m.begun inst).execute inst).machine := by
  have hm := execute_of_fault hf
  constructor
  case size => exact size_execute (m.begun inst) inst
  case memory => exact fun hn => memory_of_fault hf hn
  case digits =>
    rintro x rfl a ha
    exact byteAt_storeDecimal (m := m.begun (.storeDecimal x)) h.i.1 x ha
  all_goals rw [hm]
  case dt => exact dt_fetched h
  case st => exact st_fetched h
  case beeps => exact beeps_fetched h
  all_goals rfl

/-- A stopped step has no effect beyond its prelude, whatever instruction was refused, except that
decimal digits are stored as far as memory reaches. -/
theorem Reachable.stopped_of_fault (h : Reachable m) (hf : m.step.fault = some f) :
    ∃ inst, m.current? = some inst ∧ Stopped m inst m.step.machine := by
  rcases step_cases h.invariant.pc.1 with ⟨_, hs⟩ | ⟨_, _, hs⟩ | ⟨inst, _, hc, hs⟩
  · rw [hs] at hf
    cases hf
  · rw [hs] at hf
    cases hf
  · rw [hs] at hf ⊢
    exact ⟨inst, hc, stopped_of_begun h.invariant hf⟩

/-- Two of the three digits are stored. -/
theorem stopped_atEnd :
    Reachable atEnd ∧ atEnd.step.fault = some (.memory (.outOfRange 0x1000)) ∧
      Stopped atEnd (.storeDecimal 0) atEnd.step.machine ∧
      (atEnd.step.machine.memory.byteAt 0xFFE).toNat = 2 ∧
      (atEnd.step.machine.memory.byteAt 0xFFF).toNat = 5 := by
  obtain ⟨hrun, hc, hi, hreg⟩ := atEnd_eq
  have hf : atEnd.step.fault = some (.memory (.outOfRange 0x1000)) := by
    rw [reachable_atEnd.invariant.step_fault, hrun, hc, if_neg Bool.false_ne_true,
      Option.bind_some, refusal?_atEnd]
  obtain ⟨inst, hinst, hs⟩ := reachable_atEnd.stopped_of_fault hf
  rw [hc] at hinst
  cases hinst
  have hsize := reachable_atEnd.invariant.memory
  refine ⟨reachable_atEnd, hf, hs, ?_, ?_⟩
  · rw [hs.digits 0 rfl 0xFFE (by rw [hsize]; decide), hi, hreg]
    rfl
  · rw [hs.digits 0 rfl 0xFFF (by rw [hsize]; decide), hi, hreg]
    rfl

end Chip8.Machine
