import Chip8.Proofs.Machine.Run
import Mathlib.Data.List.Basic

/-! # A live trace

Whether a machine is traced decides about nothing but what it prints. Two runs that differ in the
trace go through the same machines, `untraced`, and are stopped by the same faults. A traced run
prints an `entry` for each of its steps, an untraced one only the reports among them. An entry shows
the machine as its step begins, except that the step is counted, the timers are counted down and the
word is noted: `shown`. -/

namespace Chip8.Machine

variable {m m' : Machine}

/-- The machine as a step shows it. -/
def shown (s : Machine) : Machine :=
  { s with
    dt := max 0 (s.dt - 1)
    st := max 0 (s.st - 1)
    ticks := s.ticks + 1
    opcode := s.word }

/-- What a step prints about a word that is no instruction. -/
def report? (s : Machine) : Option String :=
  match s.current? with
  | none => some (s.shown.unknownReport (.ofInt s.word))
  | some _ => none

/-- What a traced step prints: a line for an instruction, a report for any other word. -/
def entry (s : Machine) : String :=
  match s.current? with
  | none => s.shown.unknownReport (.ofInt s.word)
  | some inst => s.shown.traceLine inst.mnemonic

theorem shown_eq (hm : Invariant m) : m.shown = { m.fetched with beeps := m.beeps } := by
  have hdt := hm.dt
  have hst := hm.st
  have hdelay : m.fetched.dt = max 0 (m.dt - 1) := by
    rw [dt_fetched hm]
    split <;> omega
  have hsound : m.fetched.st = max 0 (m.st - 1) := by
    rw [st_fetched hm]
    split <;> omega
  unfold shown
  rw [← hdelay, ← hsound]
  rfl

theorem texts_of_running (hm : Invariant m) (hrun : m.halted = false) :
    m.texts = if m.live then [m.entry] else m.report?.toList := by
  simp only [texts, entry, report?, hrun, shown_eq hm]
  cases hc : m.current? with
  | none => cases m.live <;> rfl
  | some inst => cases m.live <;> rfl

theorem live_step (hpc : 0 ≤ m.pc) : m.step.machine.live = m.live := by
  rcases step_cases hpc with ⟨_, hs⟩ | ⟨_, _, hs⟩ | ⟨inst, _, _, hs⟩ <;> rw [hs]
  · rfl
  · rfl
  · exact (execute_effect (m.begun inst) inst).live

/-- A run prints what its steps print, in their order. -/
theorem printed_after_taken (hm : Invariant m) (actions : List Action) :
    (m.after actions).printed.toList = m.printed.toList ++ (m.taken actions).flatMap fun s =>
      if m.live then [s.entry] else s.report?.toList := by
  let texts (past : List Machine) : List String :=
    past.flatMap fun s => if m.live then [s.entry] else s.report?.toList
  suffices hall : (m.after actions).live = m.live ∧
      (m.after actions).printed.toList = m.printed.toList ++ texts (m.taken actions) from hall.2
  apply after_of_taken (P := fun past s => s.live = m.live ∧
    s.printed.toList = m.printed.toList ++ texts past) hm actions ?_ (fun _ _ _ hP => hP)
    (fun _ _ hP => hP) ⟨rfl, (List.append_nil _).symm⟩
  intro past s _ hinv hrun ⟨hlive, hprinted⟩
  refine ⟨(live_step hinv.pc.1).trans hlive, ?_⟩
  rw [printed_step hinv.pc.1, texts_of_running hinv hrun, hlive]
  simp [texts, hprinted]

end Chip8.Machine
