import Chip8.Proofs.HostLoop.Tick

/-! # The machine without its loop

A `Bare` machine is stepped once for each tick of a loop that neither quits nor fails before its
step, with the keys of the last poll that did not quit. The loop's own machine is this one, apart
from the redraw flag, which the loop takes down and which no step reads. -/

namespace Chip8.HostLoop

open Machine

/-- A machine on its own, and the keys that were held down at the last poll that did not quit. -/
structure Bare where
  machine : Machine
  held : Vector Bool 16

namespace Bare

/-- No key is held down before the first poll. -/
def start (m : Machine) : Bare := ⟨m, Vector.replicate 16 false⟩

def heldAt (b : Bare) (l : HostLoop) (t : Binary64) (input : Poll) : Vector Bool 16 :=
  if l.tickPolls t && !input.quit then input.held else b.held

/-- The step that goes with a tick. -/
def step (b : Bare) (l : HostLoop) (t : Binary64) (input : Poll) : Outcome :=
  (b.machine.setKeys (b.heldAt l t input)).step

/-- No step goes with a tick that quits, or with one that fails because its time is infinite. -/
def follow (b : Bare) (l : HostLoop) (t : Binary64) (input : Poll) : Bare where
  machine :=
    if (l.tick t input).verdict = .quit ∨ t = .infinite false then b.machine
    else (b.step l t input).machine
  held := b.heldAt l t input

def along (b : Bare) (l : HostLoop) : List (Binary64 × Poll) → Bare
  | [] => b
  | given :: rest => (b.follow l given.1 given.2).along (l.tick given.1 given.2).loop rest

end Bare

variable {b : Bare} {h : History} {l : HostLoop} {t : Binary64} {input : Poll}

/-! ## Ticks that take no step -/

theorem verdict_eq_quit_iff :
    (l.tick t input).verdict = .quit ↔ l.tickPolls t = true ∧ input.quit = true := by
  have hstep : ∀ fault, Verdict.ofStep fault ≠ .quit := by
    intro fault
    cases fault <;> exact Verdict.noConfusion
  rcases tick_cases l t input with ⟨hf, ht⟩ | ⟨hp, hq, ht⟩ | ⟨hp, hq, ht⟩ | ⟨_, hp, ht⟩
  · simp [ht, tickPolls, hf]
  · simp [ht, hp, hq]
  · simp [ht, verdict_stepMachine, hstep, hq]
  · simp [ht, verdict_stepMachine, hstep, hp]

/-- A tick that quits leaves the whole machine, its flag and its keys too. -/
theorem tick_of_quit (hquit : (l.tick t input).verdict = .quit) :
    (l.tick t input).loop.machine = l.machine ∧ (l.tick t input).requests = (l.report t).2 := by
  obtain ⟨hpoll, hq⟩ := verdict_eq_quit_iff.mp hquit
  rcases tick_cases l t input with ⟨hf, _⟩ | ⟨_, _, ht⟩ | ⟨_, hno, _⟩ | ⟨_, hno, _⟩
  · simp [tickPolls, hf] at hpoll
  · rw [ht]
    exact ⟨machine_report l t, rfl⟩
  · rw [hq] at hno
    cases hno
  · rw [hpoll] at hno
    cases hno

theorem tick_of_infinite (hreport : l.nextReport.NonNeg) (input : Poll) :
    l.tick (.infinite false) input = ⟨l, [], .faulted .timeTooLarge⟩ :=
  if_pos ((failsToReport_iff hreport).mpr rfl)

/-! ## Ticks that take a step -/

/-- The loop as a tick comes to step its machine, and what the tick has asked for by then. -/
def ready (l : HostLoop) (t : Binary64) (input : Poll) : HostLoop × List Request :=
  if l.tickPolls t then l.attend t input.held else l.report t

theorem tick_eq_stepMachine (hreport : l.nextReport.NonNeg)
    (hquit : (l.tick t input).verdict ≠ .quit) (hfinite : t ≠ .infinite false) :
    l.tick t input = (l.ready t input).1.stepMachine (l.ready t input).2 := by
  unfold ready
  rcases tick_cases l t input with ⟨hf, _⟩ | ⟨_, _, ht⟩ | ⟨hp, _, ht⟩ | ⟨_, hp, ht⟩
  · exact absurd ((failsToReport_iff hreport).mp hf) hfinite
  · rw [ht] at hquit
    exact absurd rfl hquit
  · rw [hp]
    exact ht
  · rw [hp]
    exact ht

/-- Before the step a tick changes nothing of the machine but the keys and the flag. -/
theorem machine_ready (l : HostLoop) (t : Binary64) (input : Poll)
    (hquit : (l.tick t input).verdict ≠ .quit) :
    ∃ up, (l.ready t input).1.machine =
      (l.machine.setKeys (Bare.heldAt ⟨l.machine, l.machine.keys⟩ l t input)).withRedraw up := by
  rw [Ne, verdict_eq_quit_iff, not_and] at hquit
  unfold ready Bare.heldAt
  cases hp : l.tickPolls t with
  | true =>
    refine ⟨false, ?_⟩
    rw [Bool.eq_false_iff.mpr (hquit hp)]
    exact machine_attend l t input.held
  | false => exact ⟨l.machine.screen.redraw, machine_report l t⟩

theorem count_beep_ready (l : HostLoop) (t : Binary64) (input : Poll) :
    (l.ready t input).2.count .beep = 0 := by
  have hframe : Request.beep ∉ l.frame := by
    unfold frame Screen.render
    split <;> simp
  unfold ready
  split
  · rw [requests_attend, List.count_append, count_report rfl, List.count_eq_zero.mpr hframe]
  · exact count_report rfl l t

/-! ## The two machines side by side -/

/-- What every tick keeps between the loop's machine and the bare one. -/
structure Mirrors (b : Bare) (h : History) : Prop where
  machine : ∃ up, h.loop.machine = b.machine.withRedraw up
  held : b.machine.keys = b.held
  beeps : h.requests.count .beep = b.machine.beeps
  invariant : Invariant b.machine
  nextReport : h.loop.nextReport.NonNeg

theorem Mirrors.step (hb : Mirrors b h) (hquit : (h.loop.tick t input).verdict ≠ .quit)
    (hfinite : t ≠ .infinite false) :
    (h.loop.tick t input).verdict = .ofStep (b.step h.loop t input).fault ∧
      (∃ up, (h.loop.tick t input).loop.machine =
        (b.step h.loop t input).machine.withRedraw up) ∧
      (h.loop.tick t input).requests.count .beep =
        (b.step h.loop t input).machine.beeps - b.machine.beeps := by
  obtain ⟨shown, hshown⟩ := hb.machine
  obtain ⟨up, hready⟩ := machine_ready h.loop t input hquit
  have hheld : Bare.heldAt ⟨h.loop.machine, h.loop.machine.keys⟩ h.loop t input =
      b.heldAt h.loop t input := by
    rw [hshown]
    unfold Bare.heldAt
    rw [← hb.held]
    rfl
  -- As the step begins the machines differ in the flag alone, and no step reads it.
  have hsame : (h.loop.ready t input).1.machine =
      (b.machine.setKeys (b.heldAt h.loop t input)).withRedraw up := by
    rw [hready, hheld, hshown]
    rfl
  obtain ⟨after, hafter⟩ := step_withRedraw
    (m := b.machine.setKeys (b.heldAt h.loop t input)) hb.invariant.pc.1 up
  rw [tick_eq_stepMachine hb.nextReport hquit hfinite, verdict_stepMachine, machine_stepMachine,
    requests_stepMachine, List.count_append, count_beep_ready, List.count_replicate_self, hsame,
    hafter]
  exact ⟨rfl, ⟨after, rfl⟩, Nat.zero_add _⟩

theorem Mirrors.tick (hb : Mirrors b h) (t : Binary64) (input : Poll) :
    Mirrors (b.follow h.loop t input) (h.tick t input) := by
  have hnext : (h.tick t input).loop.nextReport.NonNeg := nonneg_nextReport_tick hb.nextReport
  by_cases hquit : (h.loop.tick t input).verdict = .quit
  · obtain ⟨hkeep, hasked⟩ := tick_of_quit hquit
    obtain ⟨_, hq⟩ := verdict_eq_quit_iff.mp hquit
    have hb' : b.follow h.loop t input = b := by
      simp [Bare.follow, Bare.heldAt, hquit, hq]
    rw [hb']
    refine ⟨?_, hb.held, ?_, hb.invariant, hnext⟩
    · rw [History.tick, hkeep]
      exact hb.machine
    · rw [History.tick, hasked, List.count_append, count_report rfl]
      exact hb.beeps
  by_cases hfinite : t = .infinite false
  · subst hfinite
    have hb' : b.follow h.loop (.infinite false) input = b := by
      simp [Bare.follow, Bare.heldAt, tickPolls, (failsToReport_iff hb.nextReport).mpr rfl]
    rw [hb', History.tick, tick_of_infinite hb.nextReport, List.append_nil]
    exact ⟨hb.machine, hb.held, hb.beeps, hb.invariant, hb.nextReport⟩
  · obtain ⟨_, hmachine, hbeeps⟩ := hb.step hquit hfinite
    have hb' : b.follow h.loop t input =
        ⟨(b.step h.loop t input).machine, b.heldAt h.loop t input⟩ := by
      simp [Bare.follow, hquit, hfinite]
    have hm : Invariant (b.machine.setKeys (b.heldAt h.loop t input)) :=
      hb.invariant.act (.setKeys _)
    rw [hb']
    refine ⟨hmachine, keys_step hm.pc.1, ?_, hm.step, hnext⟩
    rw [History.tick, List.count_append, hb.beeps, hbeeps]
    exact Nat.add_sub_cancel' (beeps_step hm.pc.1)

theorem Mirrors.after (hb : Mirrors b h) (ticks : List (Binary64 × Poll)) :
    Mirrors (b.along h.loop ticks) (h.after ticks) := by
  induction ticks generalizing b h with
  | nil => exact hb
  | cons given rest ih => exact ih (hb.tick given.1 given.2)

theorem mirrors_start {m : Machine} (hm : Invariant m) (hkeys : m.keys = (Bare.start m).held)
    (hbeeps : m.beeps = 0) : Mirrors (Bare.start m) (History.start m) where
  machine := ⟨m.screen.redraw, rfl⟩
  held := hkeys
  beeps := hbeeps.symm
  invariant := hm
  nextReport := Or.inr ⟨0, Rat.le_refl, rfl⟩

/-- Whatever program is run and however its ticks fall: after each of them the loop's machine is the
bare one, apart from the flag, and has sounded as often. The next tick is stopped by the fault of
the next bare step, unless it takes no step; then it leaves the whole machine as it was. -/
theorem History.machine_is_bare (program : List UInt8) (live : Bool) (random : Nat → Int)
    (ticks : List (Binary64 × Poll)) :
    let h := (History.start (boot program live random)).after ticks
    let b := (Bare.start (boot program live random)).along
      (HostLoop.start (boot program live random)).1 ticks
    ((∃ up, h.loop.machine = b.machine.withRedraw up) ∧ b.machine.keys = b.held ∧
      h.requests.count .beep = b.machine.beeps) ∧
      ∀ t input,
        let tick := h.loop.tick t input
        (tick.verdict = .quit → tick.loop.machine = h.loop.machine) ∧
          (t = .infinite false → tick = ⟨h.loop, [], .faulted .timeTooLarge⟩) ∧
          (tick.verdict ≠ .quit → t ≠ .infinite false →
            tick.verdict = .ofStep (b.step h.loop t input).fault ∧
              ∃ up, tick.loop.machine = (b.step h.loop t input).machine.withRedraw up) := by
  intro h b
  have hb : Mirrors b h := (mirrors_start (boot_invariant program live random) rfl rfl).after ticks
  refine ⟨⟨hb.machine, hb.held, hb.beeps⟩, fun t input => ⟨?_, ?_, ?_⟩⟩
  · intro hquit
    exact (tick_of_quit hquit).1
  · rintro rfl
    exact tick_of_infinite hb.nextReport input
  · intro hquit hfinite
    obtain ⟨hverdict, hmachine, _⟩ := hb.step hquit hfinite
    exact ⟨hverdict, hmachine⟩

theorem step_of_jump {m : Machine} (hm : Reachable m) (hpc : m.pc = 0x200)
    (hb : ∀ a, m.memory.byteAt a = Rom.imageAt [0x12, 0x00] a) (keys : Vector Bool 16) :
    (m.setKeys keys).step.fault = none ∧ (m.setKeys keys).step.machine.ticks = m.ticks + 1 := by
  obtain ⟨_, _, hs⟩ := (hm.act (.setKeys keys)).step_of_bytes 0x200 (.jump 0x200) hpc (by decide)
    (hb _) (hb _) rfl
  rw [act] at hs
  rw [hs]
  exact ⟨rfl, rfl⟩

/-- At an infinite time the machine is not stepped: the tick does not quit, but it is stopped by a
fault that the bare step does not know, and the step is not counted. -/
theorem not_bare_at_infinite_time :
    let m := boot [0x12, 0x00] false fun _ => 0
    let input : Poll := ⟨false, Vector.replicate 16 false⟩
    let tick := (HostLoop.start m).1.tick (.infinite false) input
    let step := (Bare.start m).step (HostLoop.start m).1 (.infinite false) input
    tick.verdict ≠ .quit ∧ tick.verdict ≠ .ofStep step.fault ∧
      ∀ up, tick.loop.machine ≠ step.machine.withRedraw up := by
  have fits : [0x12, (0x00 : UInt8)].length ≤ Rom.maxLength := by decide
  have hm : Reachable (boot [0x12, 0x00] false fun _ => 0) := .boot _ _ fits
  have hb := byteAt_boot fits false fun _ => 0
  have hpc : (boot [0x12, 0x00] false fun _ => 0).pc = 0x200 := rfl
  have hticks : (boot [0x12, 0x00] false fun _ => 0).ticks = 0 := rfl
  generalize boot [0x12, 0x00] false (fun _ => 0) = m at hm hb hpc hticks
  intro m' input tick step
  have htick : tick = ⟨⟨m, 0, 0, 0, 0⟩, [], .faulted .timeTooLarge⟩ :=
    tick_of_infinite (Or.inr ⟨0, Rat.le_refl, rfl⟩) input
  obtain ⟨hfault, hcount⟩ := step_of_jump hm hpc hb
    ((Bare.start m).heldAt (HostLoop.start m).1 (.infinite false) input)
  rw [hticks] at hcount
  have hfault' : step.fault = none := hfault
  rw [htick, hfault']
  refine ⟨Verdict.noConfusion, Verdict.noConfusion, fun up heq => ?_⟩
  have hsame : m.ticks = (step.machine.withRedraw up).ticks := congrArg Machine.ticks heq
  rw [hticks] at hsame
  exact absurd (hsame.trans hcount) (by decide)

end Chip8.HostLoop
