import Chip8.Machine.Boot
import Chip8.Proofs.Machine.Step
import Chip8.Proofs.Rom

/-! # What holds of every state that a program can get a machine into

Between two steps the host may set the keys and take the redraw flag down, and it may go on after a
fault. `Invariant` holds of a booted machine and is kept by all of these. Three of its parts need
each other: a return address is two past a program counter that left room for a word, a return
brings such an address back into the program counter, and the index, which is never cut to the size
of memory, has grown by at most a byte for each step. -/

namespace Chip8.Machine

/-- What a host does to a machine. -/
inductive Action
  | step
  | setKeys (keys : Vector Bool 16)
  | consumeRedraw

/-- The machine after an action. A step that is stopped leaves a machine too. -/
def act (m : Machine) : Action → Machine
  | .step => m.step.machine
  | .setKeys keys => m.setKeys keys
  | .consumeRedraw => { m with screen := m.screen.consumeRedraw.2 }

/-- The machine after some actions, one after the other. -/
def after (m : Machine) (actions : List Action) : Machine := actions.foldl act m

/-- The states of the standard machine in all runs of all programs that fit. -/
inductive Reachable : Machine → Prop
  | boot {program : List UInt8} (live : Bool) (random : Nat → Int)
      (fits : program.length ≤ Rom.maxLength) : Reachable (boot program live random)
  | act {m : Machine} (a : Action) (h : Reachable m) : Reachable (m.act a)

structure Invariant (m : Machine) : Prop where
  dt : 0 ≤ m.dt ∧ m.dt ≤ 0xFF
  st : 0 ≤ m.st ∧ m.st ≤ 0xFF
  opcode : 0 ≤ m.opcode ∧ m.opcode ≤ 0xFFFF
  ticks : 0 ≤ m.ticks
  i : 0 ≤ m.i ∧ m.i ≤ 0xFFF + 0xFF * m.ticks
  pc : 0 ≤ m.pc ∧ m.pc ≤ 0x10FE
  memory : m.memory.size = 0x1000
  depth : m.stack.size = 16
  returns : ∀ address ∈ m.stack.items, 2 ≤ address ∧ address ≤ 0x1000
  width : m.screen.width = 64
  height : m.screen.height = 32

variable {m : Machine} {inst : Instruction}

theorem reg_le (m : Machine) (x : Int) : (m.reg x).toNat ≤ 0xFF :=
  Nat.le_of_lt_succ (m.reg x).toNat_lt

/-! ## Boot -/

theorem boot_invariant (program : List UInt8) (live : Bool) (random : Nat → Int) :
    Invariant (boot program live random) where
  dt := ⟨Int.le_refl 0, by simp [boot, initial]⟩
  st := ⟨Int.le_refl 0, by simp [boot, initial]⟩
  opcode := ⟨Int.le_refl 0, by simp [boot, initial]⟩
  ticks := Int.le_refl 0
  i := ⟨Int.le_refl 0, by simp [boot, initial]⟩
  pc := by simp [boot, initial, programStart]
  memory := by
    simp only [boot, initial]
    rw [Rom.size_install, Memory.size_zeros, Rom.memorySize]
  depth := rfl
  returns := by simp [boot, initial, CallStack.items, CallStack.ofSize]
  width := rfl
  height := rfl

theorem byteAt_boot {program : List UInt8} (fits : program.length ≤ Rom.maxLength) (live : Bool)
    (random : Nat → Int) (a : Nat) :
    (boot program live random).memory.byteAt a = Rom.imageAt program a := by
  unfold Rom.maxLength at fits
  have hroom : 0x200 + program.length ≤ Rom.memorySize := by
    unfold Rom.memorySize
    omega
  simp only [boot, initial]
  exact (Rom.install_zeros hroom).2 a

/-! ## Executing an instruction -/

theorem delayAfter_bounds (h : Invariant m) (inst : Instruction) :
    0 ≤ m.delayAfter inst ∧ m.delayAfter inst ≤ 0xFF := by
  cases inst
  case setDelay x =>
    have := reg_le m x
    simp only [delayAfter]
    omega
  all_goals exact h.dt

theorem soundAfter_bounds (h : Invariant m) (inst : Instruction) :
    0 ≤ m.soundAfter inst ∧ m.soundAfter inst ≤ 0xFF := by
  cases inst
  case setSound x =>
    have := reg_le m x
    simp only [soundAfter]
    omega
  all_goals exact h.st

/-- An instruction adds at most a byte to the index, or sets it to an address. -/
theorem indexAfter_bounds (h : Invariant m) (he : inst.Encodable) :
    0 ≤ m.indexAfter inst ∧ (m.indexAfter inst ≤ 0xFFF ∨ m.indexAfter inst ≤ m.i + 0xFF) := by
  have hi := h.i
  cases inst
  case setIndex nnn =>
    obtain ⟨hlow, hhigh⟩ : Instruction.IsAddress nnn := he
    simp only [indexAfter]
    omega
  case addIndex x =>
    have := reg_le m x
    simp only [indexAfter]
    omega
  case fontIndex x =>
    have := reg_le m x
    simp only [indexAfter, glyphSize]
    omega
  all_goals
    simp only [indexAfter]
    omega

theorem pcAfter_bounds (h : Invariant m) (hrun : m.pc + 2 ≤ 0x1000) (he : inst.Encodable) :
    0 ≤ m.pcAfter inst ∧ m.pcAfter inst ≤ 0x10FE := by
  have hpc := h.pc
  cases inst
  case jump nnn | call nnn =>
    obtain ⟨hlow, hhigh⟩ : Instruction.IsAddress nnn := he
    simp only [pcAfter]
    omega
  case jumpOffset nnn =>
    obtain ⟨hlow, hhigh⟩ : Instruction.IsAddress nnn := he
    have := reg_le m 0
    simp only [pcAfter]
    omega
  case ret =>
    simp only [pcAfter]
    rcases List.eq_nil_or_concat m.stack.items with hnil | ⟨front, top, htop⟩
    · rw [hnil]
      exact hpc
    · have := h.returns top (by simp [htop])
      rw [htop, List.concat_eq_append, List.getLastD_concat]
      omega
  all_goals
    simp only [pcAfter]
    split <;> omega

/-- A call pushes the address past a word that lies in memory. -/
theorem returns_execute (h : Invariant m) (hrun : m.pc + 2 ≤ 0x1000) (inst : Instruction) :
    ∀ address ∈ (m.execute inst).machine.stack.items, 2 ≤ address ∧ address ≤ 0x1000 := by
  rcases execute_stack_cases m inst with hs | ⟨nnn, stack, rfl, hp, hs⟩ | ⟨top, stack, rfl, hp, hs⟩
  · rw [hs]
    exact h.returns
  · have hpc := h.pc.1
    intro address ha
    rw [hs] at ha
    simp only [done, (CallStack.push_eq_ok hp).2.2, List.mem_append, List.mem_singleton] at ha
    rcases ha with ha | rfl
    · exact h.returns address ha
    · unfold instructionSize
      omega
  · intro address ha
    rw [hs] at ha
    apply h.returns
    rw [(CallStack.pop_eq_ok hp).2.2]
    exact List.mem_append_left [top] ha

theorem depth_execute (m : Machine) (inst : Instruction) :
    (m.execute inst).machine.stack.size = m.stack.size := by
  rcases execute_stack_cases m inst with hs | ⟨nnn, stack, rfl, hp, hs⟩ | ⟨top, stack, rfl, hp, hs⟩
  · rw [hs]
  · rw [hs]
    exact (CallStack.push_eq_ok hp).1
  · rw [hs]
    exact (CallStack.pop_eq_ok hp).1

theorem Invariant.execute (h : Invariant m) (hi : m.i ≤ 0xFFF + 0xFF * (m.ticks - 1))
    (hrun : m.pc + 2 ≤ 0x1000) (he : inst.Encodable) : Invariant (m.execute inst).machine where
  dt := by
    rw [(execute_effect m inst).dt]
    exact delayAfter_bounds h inst
  st := by
    rw [(execute_effect m inst).st]
    exact soundAfter_bounds h inst
  opcode := by
    rw [(execute_effect m inst).opcode]
    exact h.opcode
  ticks := by
    rw [(execute_effect m inst).ticks]
    exact h.ticks
  i := by
    obtain ⟨hlow, hhigh⟩ := indexAfter_bounds h he
    have := h.ticks
    rw [(execute_effect m inst).i, (execute_effect m inst).ticks]
    omega
  pc := by
    cases hf : (m.execute inst).fault with
    | none =>
      rw [execute_pc hf]
      exact pcAfter_bounds h hrun he
    | some f =>
      rw [execute_of_fault hf]
      exact h.pc
  memory := (size_execute m inst).trans h.memory
  depth := (depth_execute m inst).trans h.depth
  returns := returns_execute h hrun inst
  width := (sameShape_execute m inst).1.trans h.width
  height := (sameShape_execute m inst).2.trans h.height

/-! ## Steps and runs -/

/-- Counting down keeps the timers in range and makes room for the index to grow. -/
theorem Invariant.fetched (h : Invariant m) : Invariant m.fetched where
  dt := by
    have := h.dt
    simp only [Machine.fetched, countDown]
    split <;> omega
  st := by
    have := h.st
    simp only [Machine.fetched, countDown]
    split <;> omega
  opcode := m.word_bounds
  ticks := by
    have := h.ticks
    simp only [Machine.fetched, countDown]
    omega
  i := by
    have := h.i
    simp only [Machine.fetched, countDown]
    omega
  pc := h.pc
  memory := h.memory
  depth := h.depth
  returns := h.returns
  width := h.width
  height := h.height

theorem dt_fetched (h : Invariant m) :
    m.fetched.dt = if m.dt = 0 then 0 else m.dt - 1 := by
  have := h.dt
  simp only [fetched, countDown]
  split <;> split <;> omega

theorem st_fetched (h : Invariant m) :
    m.fetched.st = if m.st = 0 then 0 else m.st - 1 := by
  have := h.st
  simp only [fetched, countDown]
  split <;> split <;> omega

theorem beeps_fetched (h : Invariant m) :
    m.fetched.beeps = if m.st = 0 then m.beeps else m.beeps + 1 := by
  have := h.st
  simp only [fetched, countDown]
  split <;> split <;> omega

/-- What was printed does not matter. -/
theorem Invariant.printing (h : Invariant m) (printed : Array String) :
    Invariant { m with printed := printed } := { h with }

theorem Invariant.step (h : Invariant m) : Invariant m.step.machine := by
  rcases step_cases h.pc.1 with ⟨_, hs⟩ | ⟨_, _, hs⟩ | ⟨inst, hrun, hc, hs⟩
  · rw [hs]
    exact h
  · rw [hs]
    exact h.fetched.printing _
  · rw [hs]
    have hroom := halted_eq_false_iff.mp hrun
    rw [h.memory] at hroom
    have hi := h.i.2
    -- The step has been counted, and that makes room for what is added to the index.
    exact (h.fetched.printing _).execute (by simp only [Machine.fetched, countDown]; omega) hroom
      (encodable_of_current? hc)

theorem Invariant.act (h : Invariant m) (a : Action) : Invariant (m.act a) := by
  cases a with
  | step => exact h.step
  | setKeys keys => exact { h with }
  | consumeRedraw => exact { h with }

theorem Invariant.after (h : Invariant m) (actions : List Action) :
    Invariant (m.after actions) := by
  induction actions generalizing m with
  | nil => exact h
  | cons a rest ih => exact ih (h.act a)

theorem Reachable.invariant (h : Reachable m) : Invariant m := by
  induction h with
  | boot live random fits => exact boot_invariant _ live random
  | act a _ ih => exact ih.act a

/-- A reachable machine executes the instruction that its next two bytes stand for. -/
theorem Reachable.step_of_bytes (h : Reachable m) (a : Nat) (inst : Instruction)
    {high low : UInt8} (hpc : m.pc = a) (hroom : a + 2 ≤ 0x1000)
    (hhigh : m.memory.byteAt a = high) (hlow : m.memory.byteAt (a + 1) = low)
    (hd : Instruction.decode? (.ofInt (high.toNat * 256 + low.toNat)) = some inst) :
    m.halted = false ∧ m.current? = some inst ∧ m.step = (m.begun inst).execute inst := by
  have hsize := h.invariant.memory
  have hrun : m.halted = false := by
    rw [halted_eq_false_iff]
    omega
  have hc : m.current? = some inst := (current?_of_bytes hpc hhigh hlow).trans hd
  exact ⟨hrun, hc, step_of_current? h.invariant.pc.1 hrun hc⟩

/-- After an instruction that only goes on, the same bytes are in memory, and the word after it is
the next one. -/
theorem Reachable.act_of_bytes (h : Reachable m) {image : Nat → UInt8} (a : Nat)
    (inst : Instruction) (hpc : m.pc = a) (hroom : a + 2 ≤ 0x1000)
    (hb : ∀ c, m.memory.byteAt c = image c)
    (hd : Instruction.decode? (.ofInt ((image a).toNat * 256 + (image (a + 1)).toNat)) =
      some inst)
    (hnext : ∀ s : Machine, (s.execute inst).machine.pc = s.pc + 2 ∧
      (s.execute inst).machine.memory = s.memory) :
    m.halted = false ∧ m.current? = some inst ∧
      m.act .step = ((m.begun inst).execute inst).machine ∧ (m.act .step).pc = a + 2 ∧
      ∀ c, (m.act .step).memory.byteAt c = image c := by
  obtain ⟨hrun, hc, hs⟩ := h.step_of_bytes a inst hpc hroom (hb _) (hb _) hd
  have hact : m.act .step = ((m.begun inst).execute inst).machine := congrArg Outcome.machine hs
  obtain ⟨hpc', hmemory⟩ := hnext (m.begun inst)
  rw [hact]
  refine ⟨hrun, hc, rfl, ?_, ?_⟩
  · rw [hpc', ← hpc]
    rfl
  · intro c
    rw [hmemory]
    exact hb c

theorem Reachable.after (h : Reachable m) (actions : List Action) :
    Reachable (m.after actions) := by
  induction actions generalizing m with
  | nil => exact h
  | cons a rest ih => exact ih (h.act a)

/-- The range of every part of the state. -/
structure InBounds (m : Machine) : Prop where
  registers : ∀ k, (m.v.get k).toNat ≤ 0xFF
  dt : 0 ≤ m.dt ∧ m.dt ≤ 0xFF
  st : 0 ≤ m.st ∧ m.st ≤ 0xFF
  memory : m.memory.size = 0x1000
  bytes : ∀ a, (m.memory.byteAt a).toNat ≤ 0xFF
  pointer : m.stack.pointer ≤ 16
  returns : ∀ address ∈ m.stack.items, 2 ≤ address ∧ address ≤ 0x1000
  pc : 0 ≤ m.pc ∧ m.pc ≤ 0x10FE
  i : 0 ≤ m.i ∧ m.i ≤ 0xFFF + 0xFF * m.ticks
  opcode : 0 ≤ m.opcode ∧ m.opcode ≤ 0xFFFF
  pixels : m.screen.pixels.size = 2048

theorem Invariant.pointer_le (h : Invariant m) : m.stack.pointer ≤ 16 := by
  have hle := m.stack.pointer_le
  rw [m.stack.slots_size, h.depth] at hle
  exact hle

/-- Whatever program is run, and however often it is stopped, no part of the state leaves its
range. -/
theorem Reachable.inBounds (h : Reachable m) : InBounds m where
  registers k := Nat.le_of_lt_succ (m.v.get k).toNat_lt
  dt := h.invariant.dt
  st := h.invariant.st
  memory := h.invariant.memory
  bytes a := Nat.le_of_lt_succ (m.memory.byteAt a).toNat_lt
  pointer := h.invariant.pointer_le
  returns := h.invariant.returns
  pc := h.invariant.pc
  i := h.invariant.i
  opcode := h.invariant.opcode
  pixels := by rw [m.screen.pixels_size, h.invariant.width, h.invariant.height]; rfl

/-- The program calls its own start until the stack is full, and once more. -/
theorem inBounds_recursion :
    Reachable ((boot [0x22, 0x00] false fun _ => -1).after (.replicate 17 .step)) ∧
      InBounds ((boot [0x22, 0x00] false fun _ => -1).after (.replicate 17 .step)) :=
  have h := (Reachable.boot false (fun _ => -1) (by decide)).after (.replicate 17 .step)
  ⟨h, h.inBounds⟩

end Chip8.Machine
