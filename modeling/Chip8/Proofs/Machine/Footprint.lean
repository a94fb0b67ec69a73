import Chip8.Proofs.Machine.Run

/-! # What an instruction writes

`Writes` names the parts of the state that an instruction may write; every other part is the same
before and after it, whether the instruction is stopped or not. Timers run down by themselves and
the host takes the redraw flag down, but whatever else has changed in the course of a run was
written by an instruction that the run executed. -/

namespace Chip8.Machine

/-- The parts of the state, as far as one can be written without the others. -/
inductive Part
  | register (k : Fin 16)
  | cell (a : Nat)
  | index
  | stack
  | pixels
  | redraw
  | delay
  | sound

def Part.Same (m m' : Machine) : Part → Prop
  | .register k => m'.v.get k = m.v.get k
  | .cell a => m'.memory.byteAt a = m.memory.byteAt a
  | .index => m'.i = m.i
  | .stack => m'.stack = m.stack
  | .pixels => m'.screen.pixels = m.screen.pixels
  | .redraw => m'.screen.redraw = m.screen.redraw
  | .delay => m'.dt = m.dt
  | .sound => m'.st = m.st

/-- The parts that nothing but an instruction changes. -/
def Part.OnlyWritten : Part → Prop
  | .redraw | .delay | .sound => False
  | _ => True

/-- Whether an instruction may write a part. Where a cell is concerned, this hangs on the index. -/
def Writes (m : Machine) : Instruction → Part → Prop
  | .loadByte x _, part | .addByte x _, part | .move x _, part | .or x _, part | .and x _, part
  | .xor x _, part | .random x _, part | .readDelay x, part | .waitKey x, part =>
    part = .register (register x)
  | .add x _, part | .sub x _, part | .subFrom x _, part | .shiftRight x _, part
  | .shiftLeft x, part => part = .register (register x) ∨ part = .register (register flagRegister)
  | .loadRegisters x, part => ∃ k : Fin 16, (k : Int) ≤ x ∧ part = .register k
  | .storeDecimal _, part => ∃ a : Nat, (m.i ≤ a ∧ a ≤ m.i + 2) ∧ part = .cell a
  | .storeRegisters x, part => ∃ a : Nat, (m.i ≤ a ∧ a ≤ m.i + x) ∧ part = .cell a
  | .setIndex _, part | .addIndex _, part | .fontIndex _, part => part = .index
  | .call _, part | .ret, part => part = .stack
  | .clear, part => part = .pixels ∨ part = .redraw
  | .draw _ _ _, part => part = .register (register flagRegister) ∨ part = .pixels ∨ part = .redraw
  | .setDelay _, part => part = .delay
  | .setSound _, part => part = .sound
  | _, _ => False

variable {m m' : Machine} {inst : Instruction} {part : Part}

theorem Part.Same.refl (m : Machine) (part : Part) : part.Same m m := by
  cases part <;> rfl

theorem Part.Same.trans {m₁ m₂ m₃ : Machine} (h : part.Same m₁ m₂) (h' : part.Same m₂ m₃) :
    part.Same m₁ m₃ := by
  cases part <;> exact Eq.trans h' h

/-- Of the machine, only the index decides what an instruction writes. -/
theorem writes_congr (hi : m.i = m'.i) : m.Writes inst part ↔ m'.Writes inst part := by
  cases inst <;> simp only [Writes, hi]

/-! ## Registers -/

theorem get_setReg (m : Machine) (x : Int) (b : UInt8) (k : Fin 16) :
    (m.setReg x b).v.get k = if k = register x then b else m.v.get k := by
  have hk : register (k : Int) = k := Fin.ofNat_val_eq_self k
  have hset := reg_setReg m x k b
  unfold reg at hset
  rwa [hk] at hset

theorem get_setReg_of_ne {x : Int} {k : Fin 16} (hk : k ≠ register x) (b : UInt8) :
    (m.setReg x b).v.get k = m.v.get k := by
  rw [get_setReg, if_neg hk]

theorem get_setFlag_of_ne {k : Fin 16} (hk : k ≠ register flagRegister) (on : Bool) :
    (m.setFlag on).v.get k = m.v.get k := get_setReg_of_ne hk _

theorem get_setRegisters (m : Machine) (bytes : List UInt8) (k : Fin 16) :
    (m.setRegisters bytes).v.get k = bytes.getD k (m.v.get k) := Vector.getElem_ofFn _

theorem get_setRegisters_of_length_le (m : Machine) (bytes : List UInt8) {k : Fin 16}
    (hk : bytes.length ≤ k) : (m.setRegisters bytes).v.get k = m.v.get k := by
  rw [get_setRegisters, List.getD_eq_getElem?_getD, List.getElem?_eq_none hk]
  rfl

theorem register_execute {k : Fin 16} (he : inst.Encodable)
    (hno : ¬ m.Writes inst (.register k)) :
    (m.execute inst).machine.v.get k = m.v.get k := by
  cases inst
  case loadByte x _ | addByte x _ | move x _ | or x _ | and x _ | xor x _ | random x _ =>
    simp only [Writes, Part.register.injEq] at hno
    exact get_setReg_of_ne hno _
  case readDelay x | waitKey x =>
    simp only [Writes, Part.register.injEq] at hno
    simp only [execute]
    split
    · exact get_setReg_of_ne hno _
    · rfl
  case add x _ | sub x _ | subFrom x _ =>
    simp only [Writes, Part.register.injEq, not_or] at hno
    exact (get_setFlag_of_ne hno.2 _).trans (get_setReg_of_ne hno.1 _)
  case shiftRight x _ | shiftLeft x =>
    simp only [Writes, Part.register.injEq, not_or] at hno
    exact (get_setReg_of_ne hno.1 _).trans (get_setFlag_of_ne hno.2 _)
  case draw x y n =>
    simp only [Writes, Part.register.injEq, not_or] at hno
    simp only [execute, drawSprite]
    split
    · rfl
    · split
      · rfl
      · exact get_setFlag_of_ne hno.1 _
  case loadRegisters x =>
    obtain ⟨hlow, _⟩ : Instruction.IsDigit x := he
    have hk : x < k := Int.not_le.mp fun hle => hno ⟨k, hle, rfl⟩
    simp only [execute]
    split
    · rename_i bytes hr
      have hlen := Memory.length_of_readBlock (by omega) hr
      have hle : bytes.length ≤ k := by omega
      exact get_setRegisters_of_length_le m bytes hle
    · rfl
  all_goals
    simp only [execute, skipOnKey, next, skipIf, done, stopped]
    repeat' split
    all_goals rfl

/-! ## Memory -/

theorem cell_execute {a : Nat} (hi : 0 ≤ m.i) (he : inst.Encodable)
    (hno : ¬ m.Writes inst (.cell a)) :
    (m.execute inst).machine.memory.byteAt a = m.memory.byteAt a := by
  cases inst
  case storeDecimal x =>
    have hout : ¬ (m.i ≤ a ∧ a ≤ m.i + 2) := fun hin => hno ⟨a, hin, rfl⟩
    by_cases ha : a < m.memory.size
    · apply UInt8.toNat_inj.mp
      rw [byteAt_storeDecimal hi x ha, if_neg (by omega), if_neg (by omega), if_neg (by omega)]
    · have hsize := size_execute m (.storeDecimal x)
      rw [Memory.byteAt_of_size_le (by omega), Memory.byteAt_of_size_le (by omega)]
  case storeRegisters x =>
    have hout : ¬ (m.i ≤ a ∧ a ≤ m.i + x) := fun hin => hno ⟨a, hin, rfl⟩
    have hlen := length_registersUpTo m he
    simp only [execute]
    split
    · rename_i memory hw
      exact (Memory.byteAt_of_writeBlock hi hw).trans (if_neg (by omega))
    · rfl
  all_goals
    simp only [execute, drawSprite, skipOnKey, next, skipIf, setFlag, setReg, setRegisters, done,
      stopped]
    repeat' split
    all_goals rfl

/-! ## The screen -/

theorem writes_pixels_iff : m.Writes inst .pixels ↔ m.Writes inst .redraw := by
  cases inst <;> simp [Writes]

theorem screen_execute (hno : ¬ m.Writes inst .pixels) :
    (m.execute inst).machine.screen = m.screen := by
  rcases execute_screen_cases m inst with hsame | ⟨_, rfl | ⟨x, y, n, rfl⟩⟩
  · exact hsame
  · exact absurd (Or.inl rfl) hno
  · exact absurd (Or.inr (Or.inl rfl)) hno

/-! ## All parts together -/

/-- An instruction leaves every part alone that it may not write. -/
theorem execute_same_or_writes (hi : 0 ≤ m.i) (he : inst.Encodable) (part : Part) :
    part.Same m (m.execute inst).machine ∨ m.Writes inst part := by
  by_cases hw : m.Writes inst part
  · exact Or.inr hw
  left
  have heffect := execute_effect m inst
  cases part with
  | register k => exact register_execute he hw
  | cell a => exact cell_execute hi he hw
  | stack =>
    rcases execute_stack_cases m inst with hs | ⟨_, _, rfl, _⟩ | ⟨_, _, rfl, _⟩
    · exact hs
    · exact absurd rfl hw
    · exact absurd rfl hw
  | pixels => exact congrArg Screen.pixels (screen_execute hw)
  | redraw =>
    rw [← writes_pixels_iff] at hw
    exact congrArg Screen.redraw (screen_execute hw)
  | index =>
    refine heffect.i.trans ?_
    cases inst
    case setIndex | addIndex | fontIndex => exact absurd rfl hw
    all_goals rfl
  | delay =>
    refine heffect.dt.trans ?_
    cases inst
    case setDelay => exact absurd rfl hw
    all_goals rfl
  | sound =>
    refine heffect.st.trans ?_
    cases inst
    case setSound => exact absurd rfl hw
    all_goals rfl

/-! ## What is written as digits and under a mask -/

/-- Three decimal digits from an address on make up a value. -/
def HoldsDecimal (memory : Memory) (a value : Nat) : Prop :=
  (∀ k < 3, (memory.byteAt (a + k)).toNat ≤ 9) ∧
    100 * (memory.byteAt a).toNat + 10 * (memory.byteAt (a + 1)).toNat +
      (memory.byteAt (a + 2)).toNat = value

theorem room_of_storeDecimal (hi : 0 ≤ m.i) {x : Int}
    (hf : (m.execute (.storeDecimal x)).fault = none) : m.i + 3 ≤ m.memory.size := by
  have hs := Memory.storeEach_fault m.memory hi (decimalDigits (m.reg x))
  by_cases hroom : m.i + 3 ≤ m.memory.size
  · exact hroom
  · simp only [decimalDigits, reduceCtorEq, List.length_cons, List.length_nil, false_or] at hs
    rw [if_neg (by omega)] at hs
    simp only [execute, decimalDigits, hs, stopped] at hf
    cases hf

theorem holdsDecimal_storeDecimal (hi : 0 ≤ m.i) {x : Int}
    (hf : (m.execute (.storeDecimal x)).fault = none) :
    HoldsDecimal (m.execute (.storeDecimal x)).machine.memory m.i.toNat (m.reg x).toNat := by
  have hroom := room_of_storeDecimal hi hf
  have hle := (m.reg x).toNat_lt
  generalize hm' : (m.execute (.storeDecimal x)).machine = m'
  have hbyte : ∀ k < 3, (m'.memory.byteAt (m.i.toNat + k)).toNat =
      if k = 0 then (m.reg x).toNat / 100
      else if k = 1 then (m.reg x).toNat / 10 % 10 else (m.reg x).toNat % 10 := by
    intro k hk
    rw [← hm', byteAt_storeDecimal hi x (by omega)]
    repeat' split
    all_goals omega
  constructor
  · intro k hk
    rw [hbyte k hk]
    repeat' split
    all_goals omega
  · have h0 := hbyte 0 (by decide)
    have h1 := hbyte 1 (by decide)
    have h2 := hbyte 2 (by decide)
    simp only [Nat.add_zero, ↓reduceIte, Nat.one_ne_zero, Nat.reduceEqDiff] at h0 h1 h2
    omega

theorem masked_random {x kk : Int} (hkk : Instruction.IsByte kk) {bit : Nat}
    (h : ((m.execute (.random x kk)).machine.reg x).toNat.testBit bit = true) :
    kk.toNat.testBit bit = true := by
  have hreg : (m.execute (.random x kk)).machine.reg x =
      UInt8.ofInt (m.random m.draws) &&& UInt8.ofInt kk :=
    (reg_setReg _ x x _).trans (if_pos rfl)
  rw [hreg, UInt8.toNat_and, Instruction.toNat_ofInt_of_isByte hkk, Nat.testBit_and,
    Bool.and_eq_true] at h
  exact h.2

/-- How the machine `m'` that an instruction leaves behind is bound to the machine `m` before it:
what is not written is the same, and what is written as digits or under a mask is told. -/
structure Footprint (m : Machine) (inst : Instruction) (m' : Machine) : Prop where
  parts : ∀ part, part.Same m m' ∨ m.Writes inst part
  size : m'.memory.size = m.memory.size
  draws : m'.draws = m.drawsAfter inst
  keys : m'.keys = m.keys
  ticks : m'.ticks = m.ticks
  digits : ∀ x, inst = .storeDecimal x → HoldsDecimal m'.memory m.i.toNat (m.reg x).toNat
  masked : ∀ x kk, inst = .random x kk →
    ∀ bit, (m'.reg x).toNat.testBit bit = true → kk.toNat.testBit bit = true

theorem Footprint.of_execute (hi : 0 ≤ m.i) (he : inst.Encodable)
    (hf : (m.execute inst).fault = none) : Footprint m inst (m.execute inst).machine where
  parts := execute_same_or_writes hi he
  size := size_execute m inst
  draws := (execute_effect m inst).draws
  keys := (execute_effect m inst).keys
  ticks := (execute_effect m inst).ticks
  digits := by
    rintro x rfl
    exact holdsDecimal_storeDecimal hi hf
  masked := by
    rintro x kk rfl bit
    exact masked_random he.2

/-- Before a word is executed it is noted, and in a live trace a line is printed. -/
theorem Footprint.of_noted {word : Int} {printed : Array String}
    (h : Footprint { m with opcode := word, printed := printed } inst m') :
    Footprint m inst m' where
  parts := h.parts
  size := h.size
  draws := h.draws
  keys := h.keys
  ticks := h.ticks
  digits := h.digits
  masked := h.masked

theorem executeWord_eq {word : Int} (hd : Instruction.decode? (.ofInt word) = some inst) :
    ∃ printed, m.executeWord word = { m with opcode := word, printed := printed }.execute inst := by
  simp only [executeWord, hd]
  exact ⟨_, perform_eq _ _⟩

/-! ## Runs -/

theorem Part.Same.begun (hp : part.OnlyWritten) (m : Machine) (inst : Instruction) :
    part.Same m (m.begun inst) := by
  cases part
  case redraw | delay | sound => cases hp
  all_goals rfl

theorem step_same_or_writes (h : Invariant m) (hp : part.OnlyWritten) :
    part.Same m m.step.machine ∨ ∃ inst, m.current? = some inst ∧ m.Writes inst part := by
  rcases step_cases h.pc.1 with ⟨_, hs⟩ | ⟨_, _, hs⟩ | ⟨inst, _, hc, hs⟩
  · rw [hs]
    exact Or.inl (.refl m part)
  · rw [hs]
    left
    cases part
    case redraw | delay | sound => cases hp
    all_goals rfl
  · rw [hs]
    have he := encodable_of_current? hc
    rcases execute_same_or_writes (m := m.begun inst) h.i.1 he part with hsame | hw
    · exact Or.inl ((Part.Same.begun hp m inst).trans hsame)
    · right
      exact ⟨inst, hc, (writes_congr rfl).mp hw⟩

/-- What has changed in a run was written by an instruction of the run. -/
theorem after_same_or_writes (h : Invariant m) (actions : List Action) (hp : part.OnlyWritten) :
    part.Same m (m.after actions) ∨
      ∃ s ∈ m.taken actions, ∃ inst, s.current? = some inst ∧ s.Writes inst part := by
  by_cases hw : ∃ s ∈ m.taken actions, ∃ inst, s.current? = some inst ∧ s.Writes inst part
  · exact Or.inr hw
  left
  apply after_of_taken (P := fun _ s => part.Same m s) h actions ?_ ?_ ?_ (.refl m part)
  · intro _ s hs hinv _ hsame
    rcases step_same_or_writes hinv hp with hstep | hwrites
    · exact hsame.trans hstep
    · exact absurd ⟨s, hs, hwrites⟩ hw
  · intro _ s keys hsame
    cases part <;> exact hsame
  · intro _ s hsame
    cases part
    case redraw => cases hp
    all_goals exact hsame

def drawsNumber (m : Machine) : Bool :=
  match m.current? with
  | some (.random _ _) => true
  | _ => false

theorem draws_step (h : Invariant m) (hrun : m.halted = false) :
    m.step.machine.draws = m.draws + if m.drawsNumber then 1 else 0 := by
  rcases running_cases h.pc.1 hrun with ⟨hc, hs⟩ | ⟨inst, hc, hs⟩
  · rw [hs, drawsNumber, hc]
    rfl
  · rw [hs, (execute_effect (m.begun inst) inst).draws, drawsNumber, hc]
    cases inst <;> rfl

theorem draws_after (h : Invariant m) (actions : List Action) :
    (m.after actions).draws = m.draws + (m.taken actions).countP drawsNumber := by
  apply after_of_taken (P := fun past s => s.draws = m.draws + past.countP drawsNumber) h actions
    ?_ (fun _ _ _ hP => hP) (fun _ _ hP => hP) rfl
  intro past s _ hinv hrun hP
  rw [draws_step hinv hrun, hP, List.countP_append, List.countP_singleton, Nat.add_assoc]

/-- Whatever instruction a machine executes, only the parts that it may write are changed, and a
random number is drawn by one instruction only. So what a run has changed is what its instructions
have written. -/
theorem changed_only_by_writes :
    (∀ (m : Machine) (word : Int) (inst : Instruction), 0 ≤ m.i →
      Instruction.decode? (.ofInt word) = some inst → (m.executeWord word).fault = none →
      Footprint m inst (m.executeWord word).machine) ∧
    ∀ m : Machine, Reachable m → ∀ actions : List Action,
      (∀ part : Part, part.OnlyWritten → part.Same m (m.after actions) ∨
        ∃ s ∈ m.taken actions, ∃ inst, s.current? = some inst ∧ s.Writes inst part) ∧
      (m.after actions).draws = m.draws + (m.taken actions).countP drawsNumber := by
  constructor
  · intro m word inst hi hd hf
    obtain ⟨printed, heq⟩ := executeWord_eq (m := m) hd
    rw [heq] at hf ⊢
    have h := Footprint.of_execute (m := { m with opcode := word, printed := printed }) hi
      (Instruction.encodable_of_decode? hd) hf
    exact h.of_noted
  · intro m h actions
    exact ⟨fun part hp => after_same_or_writes h.invariant actions hp,
      draws_after h.invariant actions⟩

/-- Eight bytes of memory, and the index at the first of the three that are to take the digits of
253. -/
def digitsAtTop : Machine :=
  { (initial (Memory.zeros 8) (CallStack.ofSize 0) (Screen.blank 8 1) false fun _ => 7).setReg 0 253
    with i := 5 }

theorem random_first (h : Reachable m) (hpc : m.pc = 0x200)
    (hb : ∀ a, m.memory.byteAt a = Rom.imageAt [0xC0, 0x0F] a) :
    m.taken [.step] = [m] ∧ m.current? = some (.random 0 0xF) := by
  obtain ⟨hrun, hc, _⟩ := h.step_of_bytes 0x200 (.random 0 0xF) hpc (by decide) (hb _) (hb _) rfl
  exact ⟨taken_of_running hrun [], hc⟩

/-- The digits of 253 reach the end of memory. A program that draws a number for `V0` leaves the
index as it was. -/
theorem changed_only_by_writes_digits :
    Instruction.decode? (.ofInt 0xF033) = some (.storeDecimal 0) ∧
      (digitsAtTop.executeWord 0xF033).fault = none ∧
      HoldsDecimal (digitsAtTop.executeWord 0xF033).machine.memory 5 253 ∧
      Reachable (boot [0xC0, 0x0F] false fun _ => 7) ∧
      Part.index.Same (boot [0xC0, 0x0F] false fun _ => 7)
        ((boot [0xC0, 0x0F] false fun _ => 7).after [.step]) := by
  have hf : (digitsAtTop.executeWord 0xF033).fault = none := rfl
  have hprint := changed_only_by_writes.1 digitsAtTop 0xF033 (.storeDecimal 0) (by decide) rfl hf
  have h : Reachable (boot [0xC0, 0x0F] false fun _ => 7) := .boot _ _ (by decide)
  obtain ⟨htaken, hc⟩ := random_first h rfl (byteAt_boot (by decide) _ _)
  obtain ⟨hparts, _⟩ := changed_only_by_writes.2 _ h [.step]
  refine ⟨rfl, hf, hprint.digits 0 rfl, h, ?_⟩
  rcases hparts .index trivial with hsame | ⟨s, hs, inst, hinst, hw⟩
  · exact hsame
  · rw [htaken, List.mem_singleton] at hs
    rw [hs, hc] at hinst
    cases hinst
    cases hw

end Chip8.Machine
