import Chip8.Proofs.Machine.Effect

/-! # The three ways of a step

A step of a machine that is not halted finds a whole word at the program counter. Either the word
is no instruction and is reported, or its instruction is executed in the machine that `begun`
describes: timers counted down, the word noted, the line of a live trace printed. -/

namespace Chip8.Machine

/-- The word at the program counter, its high byte first. -/
def word (m : Machine) : Int :=
  (m.memory.byteAt m.pc.toNat).toNat * 256 + (m.memory.byteAt (m.pc.toNat + 1)).toNat

/-- The instruction at the program counter, none if the word there has no meaning. -/
def current? (m : Machine) : Option Instruction := Instruction.decode? (.ofInt m.word)

/-- The machine once the timers are counted down and the word is noted. -/
def fetched (m : Machine) : Machine := { m.countDown with opcode := m.word }

/-- The machine as the instruction of a step finds it. -/
def begun (m : Machine) (inst : Instruction) : Machine :=
  { m.fetched with
    printed := if m.live then m.printed.push (m.fetched.traceLine inst.mnemonic) else m.printed }

/-- The machine after a step on a word that is no instruction. -/
def reported (m : Machine) : Machine := m.fetched.print (m.fetched.unknownReport (.ofInt m.word))

theorem halted_eq_false_iff {m : Machine} : m.halted = false ↔ m.pc + 2 ≤ m.memory.size := by
  unfold halted Memory.top
  rw [decide_eq_false_iff_not]
  omega

theorem word_bounds (m : Machine) : 0 ≤ m.word ∧ m.word ≤ 0xFFFF := by
  have hhigh := (m.memory.byteAt m.pc.toNat).toNat_lt
  have hlow := (m.memory.byteAt (m.pc.toNat + 1)).toNat_lt
  unfold word
  omega

/-- The test for a halt leaves room for both bytes of a word. -/
theorem fetch_eq {m : Machine} (hpc : 0 ≤ m.pc) (hrun : m.halted = false) :
    m.fetch = .ok m.word := by
  have hroom := halted_eq_false_iff.mp hrun
  have hslice : m.memory.slice m.pc (m.pc + 2) =
      [m.memory.byteAt m.pc.toNat, m.memory.byteAt (m.pc.toNat + 1)] :=
    Memory.slice_eq (n := 2) m.memory hpc hroom
  unfold fetch instructionSize
  rw [Memory.readBlock_eq m.memory m.pc (by omega), if_pos ⟨hpc, hroom⟩, hslice]
  simp [word]

theorem perform_eq (m : Machine) (inst : Instruction) :
    m.perform inst =
      { m with
        printed := if m.live then m.printed.push (m.traceLine inst.mnemonic)
          else m.printed }.execute inst := by
  unfold perform
  split <;> rfl

theorem perform_fetched (m : Machine) (inst : Instruction) :
    m.fetched.perform inst = (m.begun inst).execute inst := perform_eq m.fetched inst

/-- What a step does, by what it finds at the program counter. -/
theorem step_cases {m : Machine} (hpc : 0 ≤ m.pc) :
    (m.halted = true ∧ m.step = done m) ∨
      (m.halted = false ∧ m.current? = none ∧ m.step = done m.reported) ∨
      (∃ inst, m.halted = false ∧ m.current? = some inst ∧
        m.step = (m.begun inst).execute inst) := by
  cases hh : m.halted with
  | true => exact Or.inl ⟨rfl, if_pos hh⟩
  | false =>
    have hf : m.countDown.fetch = .ok m.word := fetch_eq hpc hh
    right
    cases hc : m.current? with
    | none =>
      refine Or.inl ⟨rfl, rfl, ?_⟩
      unfold current? at hc
      simp only [step, hh, hf, hc]
      rfl
    | some inst =>
      refine Or.inr ⟨inst, rfl, rfl, ?_⟩
      rw [← perform_fetched]
      unfold current? at hc
      simp only [step, hh, hf, hc]
      rfl

theorem step_of_current? {m : Machine} {inst : Instruction} (hpc : 0 ≤ m.pc)
    (hrun : m.halted = false) (hc : m.current? = some inst) :
    m.step = (m.begun inst).execute inst := by
  rcases step_cases hpc with ⟨hh, _⟩ | ⟨_, hnone, _⟩ | ⟨inst', _, hsome, hs⟩
  · rw [hrun] at hh
    cases hh
  · rw [hc] at hnone
    cases hnone
  · rw [hc] at hsome
    cases hsome
    exact hs

theorem step_of_unknown {m : Machine} (hpc : 0 ≤ m.pc) (hrun : m.halted = false)
    (hc : m.current? = none) : m.step = done m.reported := by
  rcases step_cases hpc with ⟨hh, _⟩ | ⟨_, _, hs⟩ | ⟨inst, _, hsome, _⟩
  · rw [hrun] at hh
    cases hh
  · exact hs
  · rw [hc] at hsome
    cases hsome

theorem running_cases {m : Machine} (hpc : 0 ≤ m.pc) (hrun : m.halted = false) :
    (m.current? = none ∧ m.step = done m.reported) ∨
      ∃ inst, m.current? = some inst ∧ m.step = (m.begun inst).execute inst := by
  cases hc : m.current? with
  | none => exact Or.inl ⟨rfl, step_of_unknown hpc hrun hc⟩
  | some inst => exact Or.inr ⟨inst, rfl, step_of_current? hpc hrun hc⟩

/-- Only the host changes which keys are held down. -/
theorem keys_step {m : Machine} (hpc : 0 ≤ m.pc) : m.step.machine.keys = m.keys := by
  rcases step_cases hpc with ⟨_, hs⟩ | ⟨_, _, hs⟩ | ⟨inst, _, _, hs⟩ <;> rw [hs]
  · rfl
  · rfl
  · exact (execute_effect (m.begun inst) inst).keys

theorem beeps_of_running {m : Machine} (hpc : 0 ≤ m.pc) (hrun : m.halted = false) :
    m.step.machine.beeps = m.beeps + if 0 < m.st then 1 else 0 := by
  have hfetched : m.fetched.beeps = m.beeps + if 0 < m.st then 1 else 0 := by
    simp only [fetched, countDown]
    split <;> rfl
  rcases running_cases hpc hrun with ⟨_, hs⟩ | ⟨inst, _, hs⟩
  · rw [hs]
    exact hfetched
  · rw [hs, (execute_effect (m.begun inst) inst).beeps]
    exact hfetched

theorem step_of_halted {m : Machine} (hh : m.halted = true) : m.step = done m := if_pos hh

theorem beeps_step {m : Machine} (hpc : 0 ≤ m.pc) : m.beeps ≤ m.step.machine.beeps := by
  cases hh : m.halted with
  | true =>
    rw [step_of_halted hh]
    exact Nat.le_refl _
  | false =>
    rw [beeps_of_running hpc hh]
    exact Nat.le_add_right _ _

/-- What a step prints. -/
def texts (m : Machine) : List String :=
  if m.halted then []
  else
    match m.current? with
    | none => [m.fetched.unknownReport (.ofInt m.word)]
    | some inst => if m.live then [m.fetched.traceLine inst.mnemonic] else []

theorem printed_step {m : Machine} (hpc : 0 ≤ m.pc) :
    m.step.machine.printed = m.printed ++ m.texts.toArray := by
  rcases step_cases hpc with ⟨hh, hs⟩ | ⟨hh, hc, hs⟩ | ⟨inst, hh, hc, hs⟩
  · rw [hs, texts, if_pos hh]
    exact (Array.append_empty).symm
  · simp only [hs, texts, hh, hc]
    rfl
  · rw [hs, (execute_effect (m.begun inst) inst).printed]
    simp only [begun, texts, hh, hc]
    cases m.live with
    | true => rfl
    | false => exact (Array.append_empty).symm

theorem printedSince_of_append {m m' : Machine} {texts : List String}
    (h : m'.printed = m.printed ++ texts.toArray) : m'.printedSince m = texts := by
  simp [printedSince, h, Array.extract_append]

theorem printedSince_step {m : Machine} (hpc : 0 ≤ m.pc) :
    m.step.machine.printedSince m = m.texts :=
  printedSince_of_append (printed_step hpc)

/-- Reads the instruction off the two bytes at the program counter. -/
theorem current?_of_bytes {m : Machine} {a : Nat} (hpc : m.pc = a) {high low : UInt8}
    (hhigh : m.memory.byteAt a = high) (hlow : m.memory.byteAt (a + 1) = low) :
    m.current? = Instruction.decode? (.ofInt (high.toNat * 256 + low.toNat)) := by
  unfold current? word
  rw [hpc, Int.toNat_natCast, hhigh, hlow]

theorem encodable_of_current? {m : Machine} {inst : Instruction} (h : m.current? = some inst) :
    inst.Encodable := Instruction.encodable_of_decode? h

end Chip8.Machine
