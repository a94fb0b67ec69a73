import Chip8.HostLoop
import Chip8.Proofs.Binary64
import Chip8.Proofs.Machine.Invariant
import Chip8.Proofs.Machine.Redraw

/-! # The four ways of a tick

A tick fails at an infinite time before it has done anything. Otherwise it may report the speed, and
then it either quits, or takes the keys over, shows the picture and steps the machine, or, between
two polls, steps the machine only. A `History` is a loop with everything that it has asked for. -/

namespace Chip8.HostLoop

open Machine

variable {l : HostLoop} {t : Binary64} {input : Poll}

/-! ## Parts of a tick -/

@[simp] theorem machine_report (l : HostLoop) (t : Binary64) :
    (l.report t).1.machine = l.machine := by
  unfold report
  split <;> rfl

@[simp] theorem nextDisplay_report (l : HostLoop) (t : Binary64) :
    (l.report t).1.nextDisplay = l.nextDisplay := by
  unfold report
  split <;> rfl

theorem titles_report {r : Request} (h : r ∈ (l.report t).2) : ∃ text, r = .title text := by
  unfold report at h
  split at h
  · exact ⟨_, List.mem_singleton.mp h⟩
  · cases h

theorem count_report {r : Request} (hr : r.title? = none) (l : HostLoop) (t : Binary64) :
    (l.report t).2.count r = 0 := by
  rw [List.count_eq_zero]
  intro hmem
  obtain ⟨_, rfl⟩ := titles_report hmem
  cases hr

/-- The requests for showing the picture, none if it has not changed. -/
def frame (l : HostLoop) : List Request :=
  if l.machine.screen.redraw then l.machine.screen.render else []

theorem showScreen_eq (l : HostLoop) :
    l.showScreen.1.machine = l.machine.withRedraw false ∧ l.showScreen.2 = l.frame ∧
      l.showScreen.1.nextReport = l.nextReport ∧ l.showScreen.1.nextDisplay = l.nextDisplay := by
  unfold showScreen frame Screen.consumeRedraw
  cases l.machine.screen.redraw <;> exact ⟨rfl, rfl, rfl, rfl⟩

/-- The loop after a poll that did not quit, and what it has asked for in this tick: the speed is
reported, the keys are taken over and the picture is shown. -/
def attend (l : HostLoop) (t : Binary64) (held : Vector Bool 16) : HostLoop × List Request :=
  let shown := ((l.report t).1.takeKeys t held).showScreen
  (shown.1, (l.report t).2 ++ shown.2)

theorem machine_attend (l : HostLoop) (t : Binary64) (held : Vector Bool 16) :
    (l.attend t held).1.machine = (l.machine.setKeys held).withRedraw false := by
  rw [← machine_report l t]
  exact (showScreen_eq _).1

theorem requests_attend (l : HostLoop) (t : Binary64) (held : Vector Bool 16) :
    (l.attend t held).2 = (l.report t).2 ++ l.frame := by
  have hframe : l.frame = ((l.report t).1.takeKeys t held).frame := by
    simp only [frame, takeKeys, machine_report]
    rfl
  rw [hframe]
  exact congrArg _ (showScreen_eq _).2.1

theorem nextReport_attend (l : HostLoop) (t : Binary64) (held : Vector Bool 16) :
    (l.attend t held).1.nextReport = (l.report t).1.nextReport := (showScreen_eq _).2.2.1

theorem nextDisplay_attend (l : HostLoop) (t : Binary64) (held : Vector Bool 16) :
    (l.attend t held).1.nextDisplay = t.add displayInterval := (showScreen_eq _).2.2.2

@[simp] theorem machine_stepMachine (l : HostLoop) (before : List Request) :
    (l.stepMachine before).loop.machine = l.machine.step.machine := by
  unfold stepMachine
  simp only []
  split <;> rfl

theorem requests_stepMachine (l : HostLoop) (before : List Request) :
    (l.stepMachine before).requests =
      before ++ List.replicate (l.machine.step.machine.beeps - l.machine.beeps) .beep := by
  unfold stepMachine
  simp only []
  split <;> rfl

/-- How a tick ends whose step was stopped by a fault, or was not. -/
def Verdict.ofStep : Option Machine.Fault → Verdict
  | none => .running
  | some f => .faulted (.machine f)

theorem verdict_stepMachine (l : HostLoop) (before : List Request) :
    (l.stepMachine before).verdict = .ofStep l.machine.step.fault := by
  unfold stepMachine
  simp only []
  split
  · rename_i h
    rw [h]
    rfl
  · rename_i h
    rw [h]
    rfl

theorem fault_of_stepMachine {before : List Request} {f : Machine.Fault}
    (h : (l.stepMachine before).verdict = .faulted (.machine f)) :
    l.machine.step.fault = some f := by
  rw [verdict_stepMachine] at h
  cases hfault : l.machine.step.fault with
  | none =>
    rw [hfault] at h
    cases h
  | some found =>
    rw [hfault] at h
    cases h
    rfl

theorem nextReport_stepMachine (l : HostLoop) (before : List Request) :
    (l.stepMachine before).loop.nextReport = l.nextReport := by
  unfold stepMachine
  simp only []
  split <;> rfl

theorem nextDisplay_stepMachine (l : HostLoop) (before : List Request) :
    (l.stepMachine before).loop.nextDisplay = l.nextDisplay := by
  unfold stepMachine
  simp only []
  split <;> rfl

/-! ## The whole tick -/

theorem tick_cases (l : HostLoop) (t : Binary64) (input : Poll) :
    (l.failsToReport t = true ∧ l.tick t input = ⟨l, [], .faulted .timeTooLarge⟩) ∨
      (l.tickPolls t = true ∧ input.quit = true ∧
        l.tick t input = ⟨(l.report t).1, (l.report t).2, .quit⟩) ∨
      (l.tickPolls t = true ∧ input.quit = false ∧
        l.tick t input = (l.attend t input.held).1.stepMachine (l.attend t input.held).2) ∨
      (l.failsToReport t = false ∧ l.tickPolls t = false ∧
        l.tick t input = (l.report t).1.stepMachine (l.report t).2) := by
  have hpolls : (l.report t).1.polls t = l.polls t := by simp only [polls, nextDisplay_report]
  cases hfail : l.failsToReport t with
  | true => exact Or.inl ⟨rfl, by simp only [tick, hfail, if_true]⟩
  | false =>
    right
    have htick : l.tickPolls t = l.polls t := by simp [tickPolls, hfail]
    rw [htick]
    cases hpoll : l.polls t with
    | false =>
      refine Or.inr (Or.inr ⟨rfl, rfl, ?_⟩)
      simp only [tick, hfail, hpolls, hpoll, Bool.false_eq_true, if_false]
    | true =>
      cases hquit : input.quit with
      | true =>
        refine Or.inl ⟨rfl, rfl, ?_⟩
        simp only [tick, hfail, hpolls, hpoll, hquit, Bool.false_eq_true, if_false, if_true]
      | false =>
        refine Or.inr (Or.inl ⟨rfl, rfl, ?_⟩)
        simp only [tick, hfail, hpolls, hpoll, hquit, Bool.false_eq_true, if_false, if_true, attend]

theorem tick_of_poll (hpoll : l.tickPolls t = true) (hquit : input.quit = false) :
    l.tick t input = (l.attend t input.held).1.stepMachine (l.attend t input.held).2 := by
  rcases tick_cases l t input with ⟨hfail, _⟩ | ⟨_, hq, _⟩ | ⟨_, _, ht⟩ | ⟨_, hno, _⟩
  · simp [tickPolls, hfail] at hpoll
  · rw [hquit] at hq
    cases hq
  · exact ht
  · rw [hpoll] at hno
    cases hno

/-- A tick does to the machine what a host may do between and in its steps. -/
theorem machine_tick (l : HostLoop) (t : Binary64) (input : Poll) :
    ∃ actions, (l.tick t input).loop.machine = l.machine.after actions := by
  rcases tick_cases l t input with ⟨_, h⟩ | ⟨_, _, h⟩ | ⟨_, _, h⟩ | ⟨_, _, h⟩ <;> rw [h]
  · exact ⟨[], rfl⟩
  · exact ⟨[], machine_report l t⟩
  · refine ⟨[.setKeys input.held, .consumeRedraw, .step], ?_⟩
    rw [machine_stepMachine, machine_attend]
    rfl
  · refine ⟨[.step], ?_⟩
    rw [machine_stepMachine, machine_report]
    rfl

/-- A tick that fails with a fault of the machine ends with the step that was refused. -/
theorem step_of_faulted {f : Machine.Fault}
    (h : (l.tick t input).verdict = .faulted (.machine f)) :
    ∃ m : Machine, m.step.fault = some f ∧ (l.tick t input).loop.machine = m.step.machine := by
  rcases tick_cases l t input with ⟨_, htick⟩ | ⟨_, _, htick⟩ | ⟨_, _, htick⟩ | ⟨_, _, htick⟩ <;>
    rw [htick] at h ⊢
  · cases h
  · cases h
  · exact ⟨_, fault_of_stepMachine h, machine_stepMachine _ _⟩
  · exact ⟨_, fault_of_stepMachine h, machine_stepMachine _ _⟩

/-! ## The time of the next report -/

theorem nonneg_nextReport_report (h : l.nextReport.NonNeg) :
    (l.report t).1.nextReport.NonNeg := by
  unfold report
  split
  · rename_i second hsecond hreports
    have hnat : (0 : Rat) ≤ second := by
      rw [Rat.intCast_nonneg]
      exact (h.of_le hreports).integerPart? hsecond
    exact (Binary64.nonneg_ofRat hnat).add (Or.inr ⟨_, Rat.natCast_nonneg, rfl⟩)
  · exact h

theorem nonneg_nextReport_tick (h : l.nextReport.NonNeg) :
    (l.tick t input).loop.nextReport.NonNeg := by
  rcases tick_cases l t input with ⟨_, ht⟩ | ⟨_, _, ht⟩ | ⟨_, _, ht⟩ | ⟨_, _, ht⟩ <;> rw [ht]
  · exact h
  · exact nonneg_nextReport_report h
  · rw [nextReport_stepMachine, nextReport_attend]
    exact nonneg_nextReport_report h
  · rw [nextReport_stepMachine]
    exact nonneg_nextReport_report h

/-- A loop that is due to report at a time from zero on fails at one time only. -/
theorem failsToReport_iff (h : l.nextReport.NonNeg) :
    l.failsToReport t = true ↔ t = .infinite false := by
  unfold failsToReport reports
  constructor
  · intro hfail
    obtain ⟨hle, hnone⟩ := Bool.and_eq_true_iff.mp hfail
    obtain rfl | ⟨q, _, rfl⟩ := h.of_le hle
    · rfl
    · cases hnone
  · rintro rfl
    obtain hinf | ⟨q, _, hq⟩ := h
    · rw [hinf]
      rfl
    · rw [hq]
      rfl

/-! ## One tick after the other -/

/-- A loop and everything that it has asked of its host. -/
structure History where
  loop : HostLoop
  requests : List Request

namespace History

/-- A loop that has not ticked yet. -/
def start (m : Machine) : History := ⟨(HostLoop.start m).1, (HostLoop.start m).2⟩

def tick (h : History) (t : Binary64) (input : Poll) : History :=
  ⟨(h.loop.tick t input).loop, h.requests ++ (h.loop.tick t input).requests⟩

/-- Goes on whether ticks quit or fail. -/
def after (h : History) (ticks : List (Binary64 × Poll)) : History :=
  ticks.foldl (fun h given => h.tick given.1 given.2) h

/-- What every tick keeps holds after any ticks. -/
theorem after_of_tick {P : History → Prop} (hkept : ∀ h t input, P h → P (h.tick t input))
    {h : History} (hstart : P h) (ticks : List (Binary64 × Poll)) : P (h.after ticks) := by
  induction ticks generalizing h with
  | nil => exact hstart
  | cons given rest ih => exact ih (hkept h given.1 given.2 hstart)

theorem invariant_tick {h : History} (hm : Invariant h.loop.machine) :
    Invariant (h.tick t input).loop.machine := by
  obtain ⟨actions, ha⟩ := machine_tick h.loop t input
  rw [tick, ha]
  exact hm.after actions

end History

end Chip8.HostLoop
