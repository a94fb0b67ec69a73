import Chip8.Proofs.Instruction.Encoding
import Chip8.Proofs.Machine.Timers
import Chip8.Proofs.Machine.Tracing

/-! # Steps that stay where they are

A word that is no instruction is reported, and the next step finds it again: nothing but the timers
and the host goes on. `Still` compares what such steps leave alone, `Standstill` counts them. -/

namespace Chip8.Machine

variable {m s : Machine} {actions : List Action}

/-- All that decides which word comes next, and all that only an instruction may change. -/
structure Still (m s : Machine) : Prop where
  v : s.v = m.v
  i : s.i = m.i
  pc : s.pc = m.pc
  stack : s.stack = m.stack
  memory : s.memory = m.memory
  screen : s.screen = m.screen
  random : s.random = m.random
  draws : s.draws = m.draws

/-- The machine after `n` steps that did nothing but count. -/
structure Standstill (m : Machine) (n : Nat) (s : Machine) : Prop where
  still : Still m s
  ticks : s.ticks = m.ticks + n
  dt : s.dt = max 0 (m.dt - n)
  st : s.st = max 0 (m.st - n)
  beeps : (s.beeps : Int) = m.beeps + min m.st n

namespace Still

theorem refl (m : Machine) : Still m m := ⟨rfl, rfl, rfl, rfl, rfl, rfl, rfl, rfl⟩

theorem trans {t : Machine} (h : Still m s) (h' : Still s t) : Still m t where
  v := h'.v.trans h.v
  i := h'.i.trans h.i
  pc := h'.pc.trans h.pc
  stack := h'.stack.trans h.stack
  memory := h'.memory.trans h.memory
  screen := h'.screen.trans h.screen
  random := h'.random.trans h.random
  draws := h'.draws.trans h.draws

theorem word (h : Still m s) : s.word = m.word := by
  unfold Machine.word
  rw [h.memory, h.pc]

theorem current? (h : Still m s) : s.current? = m.current? := by
  unfold Machine.current?
  rw [h.word]

theorem halted (h : Still m s) : s.halted = m.halted := by
  unfold Machine.halted
  rw [h.memory, h.pc]

theorem soundLoad? (h : Still m s) : s.soundLoad? = m.soundLoad? := by
  simp only [Machine.soundLoad?, reg, h.current?, h.v]

theorem delayLoad? (h : Still m s) : s.delayLoad? = m.delayLoad? := by
  simp only [Machine.delayLoad?, reg, h.current?, h.v]

/-- Only the steps of a run can end a standstill, if the host leaves the redraw flag alone. -/
theorem after (h : Still m s) (hhost : ∀ a ∈ actions, a ≠ .consumeRedraw)
    (hstep : ∀ t ∈ s.starts actions, Still m t → Still m t.step.machine) :
    (∀ t ∈ s.starts actions, Still m t) ∧ Still m (s.after actions) := by
  induction actions generalizing s with
  | nil =>
    refine ⟨?_, h⟩
    intro t ht
    rw [starts] at ht
    exact absurd ht List.not_mem_nil
  | cons a rest ih =>
    have hrest : ∀ a ∈ rest, a ≠ .consumeRedraw := fun a ha => hhost a (List.mem_cons_of_mem _ ha)
    cases a with
    | consumeRedraw => exact absurd rfl (hhost _ List.mem_cons_self)
    | setKeys keys => exact ih (s := s.setKeys keys) { h with } hrest hstep
    | step =>
      have hnext := hstep s List.mem_cons_self h
      obtain ⟨hstarts, hafter⟩ := ih hnext hrest fun t ht => hstep t (List.mem_cons_of_mem s ht)
      refine ⟨?_, hafter⟩
      intro t ht
      rcases List.mem_cons.mp ht with rfl | ht
      · exact h
      · exact hstarts t ht

end Still

/-! ## Counting the steps -/

theorem ticks_step (hpc : 0 ≤ m.pc) (hrun : m.halted = false) :
    m.step.machine.ticks = m.ticks + 1 := by
  rcases running_cases hpc hrun with ⟨_, hs⟩ | ⟨inst, _, hs⟩ <;> rw [hs]
  · rfl
  · exact (execute_effect (m.begun inst) inst).ticks

theorem ticks_after (hm : Invariant m) (actions : List Action) :
    (m.after actions).ticks = m.ticks + (m.taken actions).length := by
  apply after_of_taken (P := fun past s => s.ticks = m.ticks + past.length) hm actions ?_
    (fun _ _ _ hP => hP) (fun _ _ hP => hP) (Int.add_zero _).symm
  intro past s _ hs hrun hP
  rw [ticks_step hs.pc.1 hrun, hP, List.length_append, List.length_singleton]
  omega

theorem taken_of_still (hrun : m.halted = false) (h : ∀ t ∈ m.starts actions, Still m t) :
    m.taken actions = m.starts actions := by
  apply List.filter_eq_self.mpr
  intro t ht
  rw [(h t ht).halted, hrun]
  rfl

/-- Steps that stay where they are run the timers down, unless the word is there to load one. -/
theorem standstill_of_still (hm : Invariant m) (hrun : m.halted = false)
    (hsound : m.soundLoad? = none) (hdelay : m.delayLoad? = none)
    (h : ∀ t ∈ m.starts actions, Still m t) (hend : Still m (m.after actions)) :
    Standstill m (m.starts actions).length (m.after actions) := by
  have htaken := taken_of_still hrun h
  have hnosound : ∀ t ∈ m.taken actions, t.soundLoad? = none := by
    intro t ht
    rw [htaken] at ht
    rw [(h t ht).soundLoad?, hsound]
  have hnodelay : ∀ t ∈ m.taken actions, t.delayLoad? = none := by
    intro t ht
    rw [htaken] at ht
    rw [(h t ht).delayLoad?, hdelay]
  constructor
  case still => exact hend
  case ticks => rw [ticks_after hm, htaken]
  case dt => rw [dt_after hm actions hnodelay, htaken]
  case st => rw [st_after hm actions hnosound, htaken]
  case beeps => rw [beeps_after_of_no_load hm actions hnosound, htaken]

theorem standstill_zero (hm : Invariant m) : Standstill m 0 m where
  still := .refl m
  ticks := (Int.add_zero _).symm
  dt := by
    have := hm.dt.1
    omega
  st := by
    have := hm.st.1
    omega
  beeps := by
    have := hm.st.1
    omega

/-- What a step does before its instruction is executed. -/
theorem standstill_begun (hm : Invariant m) (inst : Instruction) :
    Standstill m 1 (m.begun inst) where
  still := ⟨rfl, rfl, rfl, rfl, rfl, rfl, rfl, rfl⟩
  ticks := rfl
  dt := by
    have := hm.dt.1
    have hdt : (m.begun inst).dt = if m.dt = 0 then 0 else m.dt - 1 := dt_fetched hm
    rw [hdt]
    split <;> omega
  st := by
    have := hm.st.1
    have hst : (m.begun inst).st = if m.st = 0 then 0 else m.st - 1 := st_fetched hm
    rw [hst]
    split <;> omega
  beeps := by
    have := hm.st.1
    have hbeeps : (m.begun inst).beeps = m.fetched.beeps := rfl
    rw [hbeeps, beeps_fetched hm]
    split <;> omega

/-- One standstill after the other. -/
theorem Standstill.append {n k : Nat} {t : Machine} (hm : Invariant m) (h : Standstill m n s)
    (h' : Standstill s k t) : Standstill m (n + k) t where
  still := h.still.trans h'.still
  ticks := by
    rw [h'.ticks, h.ticks]
    omega
  dt := by
    rw [h'.dt, h.dt]
    omega
  st := by
    rw [h'.st, h.st]
    omega
  beeps := by
    have := hm.st.1
    rw [h'.beeps, h.beeps, h.st]
    omega

/-! ## Words without a meaning -/

theorem Still.reported (h : Still m s) : Still m s.reported := { h with }

/-- The report about the word of `m` that a step prints: it names the word and where it is, and
shows the machine of the step. -/
def reportOf (m s : Machine) : String :=
  "Opcode 0x" ++ Text.hex 4 m.word ++ " at address 0x" ++ Text.hex 3 m.pc ++
    " is not a CHIP-8 instruction, skipping.\n" ++ s.shown.verboseTrace "???"

theorem unknownReport_of_still (h : Still m s) :
    s.shown.unknownReport (.ofInt s.word) = m.reportOf s := by
  have hpc : s.shown.pc = m.pc := h.pc
  have hraw : ((Opcode.ofInt m.word).raw : Int) = m.word := by
    have hbounds := m.word_bounds
    rw [Opcode.raw_ofInt]
    omega
  unfold unknownReport reportOf
  rw [h.word, hraw, hpc]

theorem step_of_still (hpc : 0 ≤ m.pc) (hrun : m.halted = false) (hc : m.current? = none)
    (h : Still m s) : s.step = done s.reported :=
  step_of_unknown (by rw [h.pc]; exact hpc) (h.halted.trans hrun) (h.current?.trans hc)

theorem reports_of_still (hm : Invariant m) (hrun : m.halted = false) (hc : m.current? = none)
    (h : ∀ t ∈ m.starts actions, Still m t) :
    (m.after actions).printed.toList = m.printed.toList ++ (m.starts actions).map m.reportOf := by
  rw [printed_after_taken hm, taken_of_still hrun h, List.map_eq_flatMap]
  congr 1
  apply List.flatMap_congr
  intro t ht
  have hct : t.current? = none := (h t ht).current?.trans hc
  have hreport := unknownReport_of_still (h t ht)
  simp only [entry, report?, hct, hreport, Option.toList_some, ite_self]

/-- A word that is no instruction is reported by every step and never left behind, whatever keys the
host sets in between. The reports name the word and its address, and only the counts go on. -/
theorem Reachable.unknown_stands (h : Reachable m) (hrun : m.halted = false)
    (hc : m.current? = none) (hhost : ∀ a ∈ actions, a ≠ .consumeRedraw) :
    (∀ s ∈ m.starts actions, s.step.fault = none) ∧
    Standstill m (m.starts actions).length (m.after actions) ∧
    (m.after actions).printed.toList =
      m.printed.toList ++ (m.starts actions).map m.reportOf := by
  have hm := h.invariant
  have hstep : ∀ t ∈ m.starts actions, Still m t → Still m t.step.machine := by
    intro t _ ht
    rw [step_of_still hm.pc.1 hrun hc ht]
    exact ht.reported
  obtain ⟨hstarts, hend⟩ := (Still.refl m).after hhost hstep
  have hsound : m.soundLoad? = none := by rw [soundLoad?, hc]
  have hdelay : m.delayLoad? = none := by rw [delayLoad?, hc]
  refine ⟨?_, ?_, reports_of_still hm hrun hc hstarts⟩
  · intro s hs
    rw [step_of_still hm.pc.1 hrun hc (hstarts s hs)]
    rfl
  · exact standstill_of_still hm hrun hsound hdelay hstarts hend

/-- A program that loads 2 into the sound timer and then comes to a word. -/
def soundsThen (high low : UInt8) : List UInt8 := [0x60, 0x02, 0xF0, 0x18, high, low]

theorem soundsThen_run {high low : UInt8} (h : Reachable m) (hpc : m.pc = 0x200)
    (hb : ∀ a, m.memory.byteAt a = Rom.imageAt (soundsThen high low) a) :
    (m.after [.step, .step]).pc = 0x204 ∧ (m.after [.step, .step]).st = 2 ∧
      (m.after [.step, .step]).halted = false ∧
      (m.after [.step, .step]).current? =
        Instruction.decode? (.ofInt (high.toNat * 256 + low.toNat)) := by
  have hbyte : ∀ k < 6, Rom.imageAt (soundsThen high low) (0x200 + k) =
      (soundsThen high low).getD k 0 := fun k hk => Rom.imageAt_add hk
  have hload : Rom.imageAt (soundsThen high low) 0x200 = 0x60 ∧
      Rom.imageAt (soundsThen high low) 0x201 = 0x02 :=
    ⟨hbyte 0 (by decide), hbyte 1 (by decide)⟩
  have hset : Rom.imageAt (soundsThen high low) 0x202 = 0xF0 ∧
      Rom.imageAt (soundsThen high low) 0x203 = 0x18 :=
    ⟨hbyte 2 (by decide), hbyte 3 (by decide)⟩
  obtain ⟨_, _, hact, hpc1, hb1⟩ := h.act_of_bytes 0x200 (.loadByte 0 2) hpc (by decide) hb
    (by rw [hload.1, hload.2]; rfl) fun _ => ⟨rfl, rfl⟩
  have h1 := h.act .step
  have hreg : (m.act .step).reg 0 = 2 := by
    rw [hact]
    exact reg_setReg (m.begun (.loadByte 0 2)) 0 0 2
  simp only [after, List.foldl]
  generalize m.act .step = m1 at *
  obtain ⟨_, _, hact1, hpc2, hb2⟩ := h1.act_of_bytes 0x202 (.setSound 0) hpc1 (by decide) hb1
    (by rw [hset.1, hset.2]; rfl) fun _ => ⟨rfl, rfl⟩
  have h2 := h1.act .step
  have hst : (m1.act .step).st = 2 := by
    rw [hact1]
    exact congrArg (fun b : UInt8 => (b.toNat : Int)) hreg
  have hsize := h2.invariant.memory
  refine ⟨hpc2, hst, halted_eq_false_iff.mpr (by omega), ?_⟩
  exact current?_of_bytes hpc2 ((hb2 _).trans (hbyte 4 (by decide)))
    ((hb2 _).trans (hbyte 5 (by decide)))

/-- A program that loads 2 into the sound timer and then comes to a word that is no instruction. -/
def soundsThenStops : List UInt8 := [0x60, 0x02, 0xF0, 0x18, 0x80, 0x08]

/-- Three steps on the word `8008`, one of them with other keys, sound the buzzer twice. -/
theorem unknown_stands_afterSound :
    let m := (boot soundsThenStops false fun _ => 0).after [.step, .step]
    let actions : List Action := [.step, .setKeys (Vector.replicate 16 true), .step, .step]
    (Reachable m ∧ m.halted = false ∧ m.current? = none ∧ ∀ a ∈ actions, a ≠ .consumeRedraw) ∧
      (m.after actions).pc = 0x204 ∧ (m.after actions).st = 0 ∧
      ((m.after actions).beeps : Int) = m.beeps + 2 ∧
      (m.after actions).printed.size = m.printed.size + 3 := by
  intro m actions
  have fits : soundsThenStops.length ≤ Rom.maxLength := by decide
  have h : Reachable (boot soundsThenStops false fun _ => 0) := .boot _ _ fits
  have hb := byteAt_boot fits false fun _ => 0
  have hm : Reachable m := h.after [.step, .step]
  obtain ⟨hpc, hst, hrun, hc⟩ : m.pc = 0x204 ∧ m.st = 2 ∧ m.halted = false ∧ m.current? = none :=
    soundsThen_run h rfl hb
  have hhost : ∀ a ∈ actions, a ≠ .consumeRedraw := by simp [actions]
  clear_value m
  obtain ⟨_, hstand, hprinted⟩ := hm.unknown_stands hrun hc hhost
  have hlen : (m.starts actions).length = 3 := by simp only [actions, starts, List.length]
  have hsize : (m.after actions).printed.size = m.printed.size + 3 := by
    rw [← Array.length_toList, hprinted, List.length_append, List.length_map, hlen,
      Array.length_toList]
  have hsound := hstand.st
  have hbeeps := hstand.beeps
  rw [hst, hlen] at hsound hbeeps
  exact ⟨⟨hm, hrun, hc, hhost⟩, hstand.still.pc.trans hpc, hsound, hbeeps, hsize⟩

end Chip8.Machine
