import Chip8.Proofs.Machine.Run
import Mathlib.Algebra.Ring.Int.Defs

/-! # Timers and beeps over a run

Both timers are counted down before the instruction of a step may load or read them, and a beep goes
with every count of the sound timer. So what the sound timer holds together with the beeps made
changes only by what is loaded in place of the count, and a timer that is not loaded is down by the
number of steps taken, or at zero. -/

namespace Chip8.Machine

variable {m : Machine}

/-- What the next instruction loads into the sound timer, if it loads it. -/
def soundLoad? (m : Machine) : Option Int :=
  match m.current? with
  | some (.setSound x) => some (m.reg x).toNat
  | _ => none

def delayLoad? (m : Machine) : Option Int :=
  match m.current? with
  | some (.setDelay x) => some (m.reg x).toNat
  | _ => none

/-- By how much the next instruction changes the sound timer that has been counted down. -/
def soundGain (m : Machine) : Int :=
  match m.soundLoad? with
  | some value => value - m.fetched.st
  | none => 0

/-! ## One step -/

theorem st_step (h : Invariant m) (hrun : m.halted = false) :
    m.step.machine.st = m.soundLoad?.getD m.fetched.st := by
  rcases running_cases h.pc.1 hrun with ⟨hc, hs⟩ | ⟨inst, hc, hs⟩
  · rw [hs, soundLoad?, hc]
    rfl
  · rw [hs, (execute_effect (m.begun inst) inst).st, soundLoad?, hc]
    cases inst <;> rfl

theorem dt_step (h : Invariant m) (hrun : m.halted = false) :
    m.step.machine.dt = m.delayLoad?.getD m.fetched.dt := by
  rcases running_cases h.pc.1 hrun with ⟨hc, hs⟩ | ⟨inst, hc, hs⟩
  · rw [hs, delayLoad?, hc]
    rfl
  · rw [hs, (execute_effect (m.begun inst) inst).dt, delayLoad?, hc]
    cases inst <;> rfl

/-- The sound timer loses what is beeped, and gains what is loaded in place of the count. -/
theorem balance_step (h : Invariant m) (hrun : m.halted = false) :
    m.step.machine.st + m.step.machine.beeps = m.st + m.beeps + m.soundGain := by
  have hst := h.st.1
  have hcount := st_fetched h
  rw [st_step h hrun, beeps_of_running h.pc.1 hrun, soundGain]
  cases m.soundLoad? with
  | none =>
    simp only [Option.getD_none, hcount]
    split <;> split <;> omega
  | some value =>
    simp only [Option.getD_some, hcount]
    split <;> split <;> omega

/-! ## Runs -/

theorem beeps_after (h : Invariant m) (actions : List Action) :
    (m.after actions).beeps = m.beeps + (m.taken actions).countP (0 < ·.st) := by
  apply after_of_taken (P := fun past s => s.beeps = m.beeps + past.countP (0 < ·.st)) h actions
    ?_ (fun _ _ _ hP => hP) (fun _ _ hP => hP) rfl
  intro past s _ hs hrun hP
  rw [beeps_of_running hs.pc.1 hrun, hP, List.countP_append, List.countP_singleton]
  simp [Nat.add_assoc]

theorem balance_after (h : Invariant m) (actions : List Action) :
    (m.after actions).st + (m.after actions).beeps =
      m.st + m.beeps + ((m.taken actions).map soundGain).sum := by
  apply after_of_taken
    (P := fun past s => s.st + s.beeps = m.st + m.beeps + (past.map soundGain).sum) h actions
    ?_ (fun _ _ _ hP => hP) (fun _ _ hP => hP) (by simp)
  intro past s _ hs hrun hP
  rw [balance_step hs hrun, hP, List.map_append, List.sum_append, List.map_singleton,
    List.sum_singleton, Int.add_assoc]

/-- A timer that every step of a run counts down is down by the number of steps, or at zero. -/
theorem countdown_after {timer : Machine → Int} (h : Invariant m) (actions : List Action)
    (hstart : 0 ≤ timer m)
    (hstep : ∀ s ∈ m.taken actions, Invariant s → s.halted = false →
      timer s.step.machine = if timer s = 0 then 0 else timer s - 1)
    (hkeys : ∀ (s : Machine) keys, timer (s.act (.setKeys keys)) = timer s)
    (hshown : ∀ s : Machine, timer (s.act .consumeRedraw) = timer s) :
    timer (m.after actions) = max 0 (timer m - (m.taken actions).length) := by
  apply after_of_taken (P := fun past s => timer s = max 0 (timer m - past.length)) h actions
  · intro past s hmem hs hrun hP
    rw [hstep s hmem hs hrun, List.length_append, List.length_singleton]
    split <;> omega
  · intro past s keys hP
    rw [hkeys, hP]
  · intro past s hP
    rw [hshown, hP]
  · simp only [List.length_nil]
    omega

theorem st_after (h : Invariant m) (actions : List Action)
    (hno : ∀ s ∈ m.taken actions, s.soundLoad? = none) :
    (m.after actions).st = max 0 (m.st - (m.taken actions).length) := by
  apply countdown_after h actions h.st.1 ?_ (fun _ _ => rfl) (fun _ => rfl)
  intro s hs hinv hrun
  rw [st_step hinv hrun, hno s hs, Option.getD_none, st_fetched hinv]

theorem dt_after (h : Invariant m) (actions : List Action)
    (hno : ∀ s ∈ m.taken actions, s.delayLoad? = none) :
    (m.after actions).dt = max 0 (m.dt - (m.taken actions).length) := by
  apply countdown_after h actions h.dt.1 ?_ (fun _ _ => rfl) (fun _ => rfl)
  intro s hs hinv hrun
  rw [dt_step hinv hrun, hno s hs, Option.getD_none, dt_fetched hinv]

theorem beeps_after_of_no_load (h : Invariant m) (actions : List Action)
    (hno : ∀ s ∈ m.taken actions, s.soundLoad? = none) :
    ((m.after actions).beeps : Int) = m.beeps + min m.st (m.taken actions).length := by
  have hgains : (m.taken actions).map soundGain = List.replicate (m.taken actions).length 0 := by
    rw [List.map_eq_replicate_iff]
    intro s hs
    rw [soundGain, hno s hs]
  have hbalance := balance_after h actions
  rw [hgains, List.sum_replicate_int, st_after h actions hno] at hbalance
  omega

theorem reg_readDelay (h : Invariant m) (hrun : m.halted = false) {y : Int}
    (hc : m.current? = some (.readDelay y)) : ((m.act .step).reg y).toNat = m.fetched.dt := by
  have hdt := h.fetched.dt
  have hbyte : Instruction.IsByte m.fetched.dt := ⟨hdt.1, by omega⟩
  have hs : m.step = done ((m.begun (.readDelay y)).setReg y (UInt8.ofInt m.fetched.dt)).next :=
    (step_of_current? h.pc.1 hrun hc).trans (if_pos hbyte)
  have hreg : (m.act .step).reg y = UInt8.ofInt m.fetched.dt := by
    rw [act_step, hs]
    exact (reg_setReg _ y y _).trans (if_pos rfl)
  rw [hreg, Instruction.toNat_ofInt_of_isByte hbyte]
  omega

/-- A beep is made by every step that begins with the sound timer running. What the timer loses is
beeped, but for the loads that replace its count. A timer that is not loaded is down by the number
of steps taken since, and so is the delay that a program reads. -/
theorem Reachable.timers_after (h : Reachable m) (actions : List Action) :
    (m.after actions).beeps = m.beeps + (m.taken actions).countP (0 < ·.st) ∧
    m.st - ((m.after actions).beeps - m.beeps) + ((m.taken actions).map soundGain).sum =
      (m.after actions).st ∧
    ((∀ s ∈ m.taken actions, s.soundLoad? = none) →
      (m.after actions).st = max 0 (m.st - (m.taken actions).length) ∧
      ((m.after actions).beeps : Int) = m.beeps + min m.st (m.taken actions).length) ∧
    ∀ value, m.halted = false → m.delayLoad? = some value →
      (∀ s ∈ (m.act .step).taken actions, s.delayLoad? = none) →
      let m' := (m.act .step).after actions
      ∀ y, m'.halted = false → m'.current? = some (.readDelay y) →
        ((m'.act .step).reg y).toNat =
          max 0 (value - (((m.act .step).taken actions).length + 1)) := by
  have hm := h.invariant
  refine ⟨beeps_after hm actions, ?_, ?_, ?_⟩
  · have hbalance := balance_after hm actions
    omega
  · exact fun hno => ⟨st_after hm actions hno, beeps_after_of_no_load hm actions hno⟩
  · intro value hrun hload hno m' y hrun' hc
    have hm' : Invariant m' := (hm.act .step).after actions
    have hdt : (m.act .step).dt = value := by rw [act_step, dt_step hm hrun, hload]; rfl
    rw [reg_readDelay hm' hrun' hc, dt_fetched hm', dt_after (hm.act .step) actions hno, hdt]
    split <;> omega

/-- A program that loads 3 into both timers, the delay timer first, and then reads the delay. -/
def readsDelay : List UInt8 := [0x60, 0x03, 0xF0, 0x15, 0xF0, 0x18, 0xF1, 0x07]

theorem readsDelay_run (h : Reachable m) (hpc : m.pc = 0x200)
    (hb : ∀ a, m.memory.byteAt a = Rom.imageAt readsDelay a) :
    ((m.act .step).halted = false ∧ (m.act .step).delayLoad? = some 3) ∧
      (((m.act .step).act .step).halted = false ∧
        ((m.act .step).act .step).delayLoad? = none) ∧
      (((m.act .step).act .step).after [.step]).halted = false ∧
      (((m.act .step).act .step).after [.step]).current? = some (.readDelay 1) ∧
      (((m.act .step).act .step).after [.step]).st = 3 := by
  obtain ⟨_, _, hact, hpc1, hb1⟩ := h.act_of_bytes 0x200 (.loadByte 0 3) hpc (by decide) hb rfl
    fun _ => ⟨rfl, rfl⟩
  have h1 := h.act .step
  have hreg : (m.act .step).reg 0 = 3 := by
    rw [hact]
    exact reg_setReg (m.begun (.loadByte 0 3)) 0 0 3
  simp only [after, List.foldl]
  generalize m.act .step = m1 at *
  obtain ⟨hrun1, hc1, hact1, hpc2, hb2⟩ := h1.act_of_bytes 0x202 (.setDelay 0) hpc1 (by decide)
    hb1 rfl fun _ => ⟨rfl, rfl⟩
  have h2 := h1.act .step
  have hreg2 : (m1.act .step).reg 0 = 3 := by
    rw [hact1]
    exact hreg
  generalize m1.act .step = m2 at *
  obtain ⟨hrun2, hc2, hact2, hpc3, hb3⟩ := h2.act_of_bytes 0x204 (.setSound 0) hpc2 (by decide)
    hb2 rfl fun _ => ⟨rfl, rfl⟩
  have h3 := h2.act .step
  have hst : (m2.act .step).st = 3 := by
    rw [hact2]
    exact congrArg (fun b : UInt8 => (b.toNat : Int)) hreg2
  generalize m2.act .step = m3 at *
  obtain ⟨hrun3, hc3, _⟩ := h3.step_of_bytes 0x206 (.readDelay 1) hpc3 (by decide) (hb3 _) (hb3 _)
    rfl
  refine ⟨⟨hrun1, ?_⟩, ⟨hrun2, ?_⟩, hrun3, hc3, hst⟩
  · rw [delayLoad?, hc1]
    exact congrArg (fun b : UInt8 => some (b.toNat : Int)) hreg
  · rw [delayLoad?, hc2]

/-- The delay is read two steps after 3 was loaded, and the sound timer has been counted down once
since it was loaded. -/
theorem timers_after_readsDelay :
    let m := (boot readsDelay false fun _ => 0).act .step
    Reachable m ∧ m.halted = false ∧ m.delayLoad? = some 3 ∧
      (((m.act .step).after [.step]).act .step).reg 1 = 1 ∧
      (((m.act .step).after [.step]).after [.step]).st = 2 := by
  have fits : readsDelay.length ≤ Rom.maxLength := by decide
  have h : Reachable (boot readsDelay false fun _ => 0) := .boot _ _ fits
  have hb := byteAt_boot fits false fun _ => 0
  obtain ⟨⟨hrun, hload⟩, ⟨hrun1, hno⟩, hrun2, hread, hst⟩ := readsDelay_run h rfl hb
  generalize boot readsDelay false (fun _ => 0) = m at *
  have htaken : ((m.act .step).act .step).taken [.step] = [(m.act .step).act .step] :=
    taken_of_running hrun1 []
  have hnone : ∀ s ∈ ((m.act .step).act .step).taken [.step], s.delayLoad? = none := by
    rw [htaken]
    intro s hs
    rw [List.mem_singleton.mp hs]
    exact hno
  have hquiet : ∀ s ∈ (((m.act .step).act .step).after [.step]).taken [.step],
      s.soundLoad? = none := by
    rw [taken_of_running hrun2]
    intro s hs
    rw [List.mem_singleton.mp hs, soundLoad?, hread]
  obtain ⟨_, _, _, hdelay⟩ := (h.act .step).timers_after [.step]
  obtain ⟨_, _, hsound, _⟩ := (((h.act .step).act .step).after [.step]).timers_after [.step]
  have hreg := hdelay 3 hrun hload hnone 1 hrun2 hread
  have hlast := (hsound hquiet).1
  rw [htaken] at hreg
  rw [taken_of_running hrun2, hst] at hlast
  refine ⟨h.act .step, hrun, hload, ?_, hlast⟩
  exact UInt8.toNat_inj.mp (Int.ofNat_inj.mp hreg)

end Chip8.Machine
