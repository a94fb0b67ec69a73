import Chip8.Proofs.Machine.Run

/-! # Where a step goes on

`GoesOnAt` is the program counter that an executed instruction leaves, read off the state before the
step. Two instructions that test for opposite conditions skip in turn: where one of them skips, the
other one does not. A program counter without room for a word stops the machine for good. -/

namespace Chip8.Machine

/-- The program counter `pc` is where an executed instruction goes on. -/
def GoesOnAt (m : Machine) (pc : Int) : Instruction → Prop
  | .jump nnn | .call nnn => pc = nnn
  | .jumpOffset nnn => pc = (m.reg 0).toNat + nnn
  | .ret => m.stack.items.getLast? = some pc
  | .waitKey _ =>
    (pc = m.pc ∧ ∀ k, m.keys.get k = false) ∨ (pc = m.pc + 2 ∧ ∃ k, m.keys.get k = true)
  | inst => pc = if m.skips inst then m.pc + 4 else m.pc + 2

/-- Two tests with the same operands, one for a condition and one for its contrary. -/
inductive Opposite : Instruction → Instruction → Prop
  | byte (x kk : Int) : Opposite (.skipEqByte x kk) (.skipNeByte x kk)
  | register (x y : Int) : Opposite (.skipEq x y) (.skipNe x y)
  | key (x : Int) : Opposite (.skipPressed x) (.skipReleased x)

variable {m : Machine} {inst a b : Instruction}

/-! ## One instruction -/

theorem firstKey?_eq_none_iff : m.firstKey? = none ↔ ∀ k, m.keys.get k = false := by
  simp [firstKey?, List.find?_eq_none]

theorem goesOnAt_execute (hf : (m.execute inst).fault = none) :
    m.GoesOnAt (m.execute inst).machine.pc inst := by
  have hpc := execute_pc hf
  cases inst
  case ret =>
    cases hp : m.stack.pop with
    | ok r =>
      obtain ⟨_, _, hitems⟩ := CallStack.pop_eq_ok hp
      simp [GoesOnAt, execute, hp, hitems, done]
    | error f => simp [execute, hp, stopped] at hf
  case waitKey x =>
    simp only [GoesOnAt, hpc, pcAfter]
    cases hk : m.firstKey? with
    | none => exact Or.inl ⟨rfl, firstKey?_eq_none_iff.mp hk⟩
    | some key => exact Or.inr ⟨rfl, key, List.find?_some hk⟩
  all_goals exact hpc

theorem goesOnAt_begun {pc : Int} : (m.begun inst).GoesOnAt pc inst ↔ m.GoesOnAt pc inst := by
  cases inst <;> exact Iff.rfl

/-- A test of a key that does not exist is stopped, whichever way it asks. -/
theorem fault_opposite (h : Opposite a b) :
    (m.execute a).fault = none ↔ (m.execute b).fault = none := by
  cases h with
  | byte x kk => exact Iff.rfl
  | register x y => exact Iff.rfl
  | key x =>
    simp only [execute, skipOnKey]
    cases m.keyDown? x <;> simp [done, stopped]

theorem skips_opposite (h : Opposite a b) (hf : (m.execute a).fault = none) :
    m.skips b = !m.skips a := by
  cases h with
  | byte x kk => rfl
  | register x y => rfl
  | key x =>
    cases hk : m.keyDown? x with
    | none => simp [execute, skipOnKey, hk, stopped] at hf
    | some down => cases down <;> simp [skips, hk]

theorem pc_opposite (h : Opposite a b) (hf : (m.execute a).fault = none) :
    (m.execute a).machine.pc = (if m.skips a then m.pc + 4 else m.pc + 2) ∧
      (m.execute b).machine.pc = if m.skips b then m.pc + 4 else m.pc + 2 := by
  rw [execute_pc hf, execute_pc ((fault_opposite h).mp hf)]
  cases h <;> exact ⟨rfl, rfl⟩

/-- Of two opposite tests one skips and the other one does not. -/
theorem one_skips (h : Opposite a b) (hf : (m.execute a).fault = none) :
    ((m.execute a).machine.pc = m.pc + 4 ∧ (m.execute b).machine.pc = m.pc + 2) ∨
      ((m.execute a).machine.pc = m.pc + 2 ∧ (m.execute b).machine.pc = m.pc + 4) := by
  rw [(pc_opposite h hf).1, (pc_opposite h hf).2, skips_opposite h hf]
  cases m.skips a with
  | true => exact Or.inl ⟨rfl, rfl⟩
  | false => exact Or.inr ⟨rfl, rfl⟩

/-! ## Steps -/

theorem goesOnAt_step (h : Invariant m) (hrun : m.halted = false) (hc : m.current? = some inst)
    (hf : m.step.fault = none) : m.GoesOnAt m.step.machine.pc inst := by
  rw [step_of_current? h.pc.1 hrun hc] at hf ⊢
  exact goesOnAt_begun.mp (goesOnAt_execute hf)

theorem Invariant.halted_iff (h : Invariant m) : m.halted = true ↔ 0xFFF ≤ m.pc := by
  rw [← Bool.not_eq_false, halted_eq_false_iff, h.memory]
  omega

theorem after_of_halted (hh : m.halted = true) (n : Nat) :
    m.after (List.replicate n .step) = m := by
  induction n with
  | zero => rfl
  | succ n ih => rwa [List.replicate_succ, after, List.foldl_cons, act_of_halted hh]

/-- A step that is not stopped goes on where its instruction says, and stays where it is on a word
that is none. Opposite tests never both skip and never both go on. A machine whose program counter
has come to the last byte of memory takes no more steps. -/
theorem Reachable.goes_on (h : Reachable m) :
    (m.halted = false → m.step.fault = none →
      (m.current? = none → m.step.machine.pc = m.pc) ∧
      ∀ inst, m.current? = some inst → m.GoesOnAt m.step.machine.pc inst) ∧
    (∀ (s : Machine) (a b : Instruction), Opposite a b →
      ((s.execute a).fault = none ↔ (s.execute b).fault = none) ∧
      ((s.execute a).fault = none →
        ((s.execute a).machine.pc = s.pc + 4 ∧ (s.execute b).machine.pc = s.pc + 2) ∨
        ((s.execute a).machine.pc = s.pc + 2 ∧ (s.execute b).machine.pc = s.pc + 4))) ∧
    (0xFFF ≤ m.pc →
      m.halted = true ∧ m.step = done m ∧ ∀ n, m.after (List.replicate n .step) = m) := by
  refine ⟨fun hrun hf => ⟨fun hc => ?_, fun inst hc => ?_⟩, fun s a b hab => ?_, fun hpc => ?_⟩
  · rw [step_of_unknown h.invariant.pc.1 hrun hc]
    rfl
  · exact goesOnAt_step h.invariant hrun hc hf
  · exact ⟨fault_opposite hab, one_skips hab⟩
  · have hh := h.invariant.halted_iff.mpr hpc
    exact ⟨hh, step_of_halted hh, after_of_halted hh⟩

theorem jump_to_end (h : Reachable m) (hpc : m.pc = 0x200)
    (hb : ∀ a, m.memory.byteAt a = Rom.imageAt [0x1F, 0xFF] a) :
    m.halted = false ∧ m.current? = some (.jump 0xFFF) ∧ m.step.fault = none := by
  obtain ⟨hrun, hc, hs⟩ := h.step_of_bytes 0x200 (.jump 0xFFF) hpc (by decide) (hb _) (hb _) rfl
  exact ⟨hrun, hc, by rw [hs]; rfl⟩

/-- The program jumps to the last byte of memory and is halted there. -/
theorem goes_on_to_end :
    let m := boot [0x1F, 0xFF] false fun _ => 0
    Reachable m ∧ m.halted = false ∧ m.step.fault = none ∧ m.step.machine.pc = 0xFFF ∧
      (m.execute (.skipEq 3 5)).fault = none ∧
      ((m.execute (.skipEq 3 5)).machine.pc = m.pc + 4 ∧
          (m.execute (.skipNe 3 5)).machine.pc = m.pc + 2 ∨
        (m.execute (.skipEq 3 5)).machine.pc = m.pc + 2 ∧
          (m.execute (.skipNe 3 5)).machine.pc = m.pc + 4) ∧
      ∀ n, (m.act .step).after (List.replicate n .step) = m.act .step := by
  intro m
  have fits : [0x1F, (0xFF : UInt8)].length ≤ Rom.maxLength := by decide
  have h : Reachable m := .boot _ _ fits
  have hb := byteAt_boot fits false fun _ => 0
  obtain ⟨hrun, hc, hf⟩ := jump_to_end h rfl hb
  obtain ⟨hstep, hopposite, _⟩ := h.goes_on
  have hpc : m.step.machine.pc = 0xFFF := (hstep hrun hf).2 _ hc
  obtain ⟨_, hskip⟩ := hopposite m _ _ (.register 3 5)
  have hend : 0xFFF ≤ (m.act .step).pc := by
    rw [act_step]
    exact Int.le_of_eq hpc.symm
  obtain ⟨_, _, hstay⟩ := (h.act .step).goes_on.2.2 hend
  exact ⟨h, hrun, hf, hpc, rfl, hskip rfl, hstay⟩

end Chip8.Machine
