import Mathlib.Data.Nat.Init
import Chip8.HostLoop.Recorder
import Chip8.Proofs.HostLoop.Bare
import Chip8.Proofs.HostLoop.Run

/-! # How far apart the ticks of a run are

A run is followed along a clock that never stops, one reading after the other. After a tick the
readings are only looked at until one of them is not below the deadline, and the reading after that
one is the next tick's. So on a clock that does not go back the deadline has passed by then. -/

namespace Chip8.HostLoop.Runner

open Machine

variable {σ : Type} {h : Host σ} {interval : Option Binary64} {clock : Nat → Binary64}
  {runs : Nat → Runner σ} {r : Runner σ} {t d : Binary64} {p q n : Nat}

/-- The run after the first `n` readings of a clock. -/
def along (h : Host σ) (interval : Option Binary64) (clock : Nat → Binary64) (r : Runner σ)
    (n : Nat) : Runner σ :=
  run h interval ((List.range n).map clock) r

/-- How the tick with the next reading ends. -/
def verdict (h : Host σ) (r : Runner σ) (t : Binary64) : Verdict :=
  (r.loop.tick t (r.input h t).1).verdict

/-- Reading number `n` is used for a tick. -/
def TicksAt (runs : Nat → Runner σ) (n : Nat) : Prop := (runs n).phase = .ready

/-- Reading number `n` is used for the first tick after that with reading number `p`. -/
structure NextTick (runs : Nat → Runner σ) (p n : Nat) : Prop where
  later : p < n
  ticks : TicksAt runs n
  first : ∀ j, p < j → j < n → ¬ TicksAt runs j

/-- Reading number `p` is used for a tick that asks for input and is told to quit. -/
def QuitsAt (h : Host σ) (clock : Nat → Binary64) (runs : Nat → Runner σ) (p : Nat) : Prop :=
  TicksAt runs p ∧ (runs p).loop.tickPolls (clock p) = true ∧
    (h.poll (clock p) (runs p).host).1.quit = true

/-- Until when the run waits after the tick with reading number `p`. -/
def deadline (clock : Nat → Binary64) (speed : Binary64) (p : Nat) : Binary64 :=
  (clock p).add (Binary64.div 1 speed)

/-- Reading number `q` is the first one after that of number `p` that is not below `d`. -/
structure FirstReached (clock : Nat → Binary64) (d : Binary64) (p q : Nat) : Prop where
  later : p < q
  reached : (clock q).lt d = false
  below : ∀ j, p < j → j < q → (clock j).lt d = true

/-! ## One reading -/

theorem along_succ (n : Nat) : along h interval clock r (n + 1) =
    (along h interval clock r n).feed h interval (clock n) := by
  unfold along
  rw [List.range_succ, List.map_append]
  exact run_concat _ r

theorem readings_feed (hended : r.ended = false) :
    (r.feed h interval t).readings = r.readings + 1 := by
  cases hphase : r.phase with
  | ready => rw [feed_of_ready hphase, tick]
  | waiting d => rw [feed_of_waiting hphase]
  | stopped v =>
    rw [ended_of_stopped hphase] at hended
    cases hended

/-! ## One tick -/

theorem phase_tick_of_running (hv : r.verdict h t = .running) :
    (r.tick h interval t).phase = match interval with
      | none => .ready
      | some d => .waiting (t.add d) := by
  unfold verdict at hv
  simp only [tick, hv]
  cases interval <;> rfl

theorem phase_tick_of_not_running (hv : r.verdict h t ≠ .running) :
    (r.tick h interval t).phase = .stopped (r.verdict h t) := by
  unfold verdict at hv ⊢
  unfold tick
  simp only []
  split
  · contradiction
  · contradiction
  · rfl

theorem verdict_eq_quit_iff : r.verdict h t = .quit ↔
    r.loop.tickPolls t = true ∧ (h.poll t r.host).1.quit = true := by
  unfold verdict
  rw [HostLoop.verdict_eq_quit_iff]
  refine and_congr_right fun hpoll => ?_
  rw [input, if_pos hpoll]

/-! ## Reading after reading -/

/-- A way of using readings: none changes a run that has ended, and a wait does not end one. -/
structure Feeding (act : Runner σ → Binary64 → Runner σ) : Prop where
  ended : ∀ r t, r.ended = true → act r t = r
  waiting : ∀ r t d, r.phase = .waiting d → (act r t).ended = false
  readings : ∀ r t, r.ended = false → (act r t).readings = r.readings + 1

theorem feeding_feed (h : Host σ) (interval : Option Binary64) : Feeding (feed h interval) where
  ended _ _ := feed_of_ended
  waiting r t d hwait := by
    rw [feed_of_waiting hwait]
    cases hlt : t.lt d <;> rfl
  readings _ _ := readings_feed

section
variable {act : Runner σ → Binary64 → Runner σ} (hact : Feeding act)
  (hruns : ∀ n, runs (n + 1) = act (runs n) (clock n))
include hact hruns

theorem Feeding.eq_of_ended (hended : (runs p).ended = true) (hn : p ≤ n) : runs n = runs p := by
  induction n, hn using Nat.le_induction with
  | base => rfl
  | succ n _ ih => rw [hruns, hact.ended _ _ (ih ▸ hended), ih]

theorem Feeding.readings_of_not_ended (hstart : (runs 0).readings = 0)
    (hn : (runs n).ended = false) : (runs n).readings = n := by
  induction n with
  | zero => exact hstart
  | succ n ih =>
    have hn' : (runs n).ended = false := by
      cases hended : (runs n).ended with
      | false => rfl
      | true => rw [← hn, hact.eq_of_ended hruns hended (Nat.le_succ n), hended]
    rw [hruns, hact.readings _ _ hn', ih hn']

/-- Only a tick ends a run. -/
theorem Feeding.exists_of_ended (hstart : TicksAt runs 0) (hn : (runs n).ended = true) :
    ∃ p, p < n ∧ TicksAt runs p ∧ (runs (p + 1)).ended = true := by
  induction n with
  | zero =>
    rw [ended_of_ready hstart] at hn
    cases hn
  | succ n ih =>
    cases hphase : (runs n).phase with
    | ready => exact ⟨n, Nat.lt_succ_self n, hphase, hn⟩
    | waiting d =>
      rw [hruns, hact.waiting _ _ d hphase] at hn
      cases hn
    | stopped v =>
      obtain ⟨p, hp, hends⟩ := ih (ended_of_stopped hphase)
      exact ⟨p, Nat.lt_succ_of_lt hp, hends⟩

end

/-! ## From tick to tick -/

section
variable (hruns : ∀ n, runs (n + 1) = (runs n).feed h interval (clock n))
include hruns

theorem succ_of_tick (hp : TicksAt runs p) :
    runs (p + 1) = (runs p).tick h interval (clock p) := by
  rw [hruns, feed_of_ready hp]

/-- While the clock stays below the deadline the run waits. -/
theorem waiting_of_below (hwait : (runs (p + 1)).phase = .waiting d) (hq : p < q)
    (hbelow : ∀ j, p < j → j < q → (clock j).lt d = true) : (runs q).phase = .waiting d := by
  induction q, hq using Nat.le_induction with
  | base => exact hwait
  | succ q hq ih =>
    have hq' := ih fun j hj hjq => hbelow j hj (Nat.lt_succ_of_lt hjq)
    rw [hruns, feed_of_waiting hq', hbelow q hq (Nat.lt_succ_self q)]
    rfl

theorem below_of_no_tick (hwait : (runs (p + 1)).phase = .waiting d) (hq : p < q)
    (hnone : ∀ j, p < j → j ≤ q → ¬ TicksAt runs j) :
    ∀ j, p < j → j < q → (clock j).lt d = true := by
  induction q, hq using Nat.le_induction with
  | base =>
    intro j hj hjq
    omega
  | succ q hq ih =>
    have hbelow := ih fun j hj hjq => hnone j hj (Nat.le_succ_of_le hjq)
    intro j hj hjq
    rcases Nat.lt_succ_iff_lt_or_eq.mp hjq with hlt | rfl
    · exact hbelow j hj hlt
    · -- The run waits here. Were this reading not below the deadline, the next one would be a
      -- tick's.
      cases hlt : (clock j).lt d with
      | true => rfl
      | false =>
        have hticks : TicksAt runs (j + 1) := by
          rw [TicksAt, hruns, feed_of_waiting (waiting_of_below hruns hwait hj hbelow), hlt]
          rfl
        exact absurd hticks (hnone (j + 1) (Nat.lt_succ_of_lt hj) (Nat.le_refl _))

/-- The next tick uses the reading right behind the first one that is not below the deadline. -/
theorem nextTick_iff (hwait : (runs (p + 1)).phase = .waiting d) :
    NextTick runs p n ↔ ∃ q, n = q + 1 ∧ FirstReached clock d p q := by
  constructor
  · rintro ⟨hlater, hticks, hfirst⟩
    obtain ⟨q, rfl⟩ := Nat.exists_eq_add_one_of_ne_zero (Nat.ne_of_gt (Nat.zero_lt_of_lt hlater))
    have hq : p < q := by
      apply Nat.lt_of_le_of_ne (Nat.lt_succ_iff.mp hlater)
      rintro rfl
      rw [TicksAt, hwait] at hticks
      cases hticks
    have hbelow := below_of_no_tick hruns hwait hq fun j hj hjq =>
      hfirst j hj (Nat.lt_succ_of_le hjq)
    refine ⟨q, rfl, hq, ?_, hbelow⟩
    rw [TicksAt, hruns, feed_of_waiting (waiting_of_below hruns hwait hq hbelow)] at hticks
    cases hlt : (clock q).lt d with
    | false => rfl
    | true =>
      rw [hlt] at hticks
      cases hticks
  · rintro ⟨q, rfl, hq, hreached, hbelow⟩
    have hwaiting := fun j (hj : p < j) (hjq : j ≤ q) => waiting_of_below hruns hwait hj
      fun i hi hij => hbelow i hi (Nat.lt_of_lt_of_le hij hjq)
    refine ⟨Nat.lt_succ_of_lt hq, ?_, fun j hj hjq hticks => ?_⟩
    · rw [TicksAt, hruns, feed_of_waiting (hwaiting q hq (Nat.le_refl q)), hreached]
      rfl
    · rw [TicksAt, hwaiting j hj (Nat.lt_succ_iff.mp hjq)] at hticks
      cases hticks

/-- Between two ticks some reading is not below the deadline of the first. -/
theorem exists_reached (hwait : (runs (p + 1)).phase = .waiting d) (hlater : p < n)
    (hticks : TicksAt runs n) : ∃ q, q < n ∧ (clock q).lt d = false := by
  apply Classical.byContradiction
  intro hnone
  have hbelow : ∀ j, p < j → j < n → (clock j).lt d = true := by
    intro j _ hj
    cases hlt : (clock j).lt d with
    | true => rfl
    | false => exact absurd ⟨j, hj, hlt⟩ hnone
  rw [TicksAt, waiting_of_below hruns hwait hlater hbelow] at hticks
  cases hticks

/-- A tick that is not left running is the last one, and its reading is the last one. -/
theorem stopped_of_tick (hp : TicksAt runs p) (hv : (runs p).verdict h (clock p) ≠ .running)
    (hn : p < n) :
    runs n = runs (p + 1) ∧ (runs n).phase = .stopped ((runs p).verdict h (clock p)) := by
  have hstopped : (runs (p + 1)).phase = .stopped ((runs p).verdict h (clock p)) := by
    rw [succ_of_tick hruns hp]
    exact phase_tick_of_not_running hv
  rw [(feeding_feed h interval).eq_of_ended hruns (ended_of_stopped hstopped) hn]
  exact ⟨rfl, hstopped⟩

theorem running_of_tick (hp : TicksAt runs p) (hlater : p < n) (hticks : TicksAt runs n) :
    (runs p).verdict h (clock p) = .running := by
  apply Decidable.byContradiction
  intro hv
  rw [TicksAt, (stopped_of_tick hruns hp hv hlater).2] at hticks
  cases hticks

theorem ticksAt_of_no_interval (hinterval : interval = none) (hstart : TicksAt runs 0)
    (hn : (runs n).ended = false) : TicksAt runs n := by
  subst hinterval
  have hall : ∀ n, TicksAt runs n ∨ (runs n).ended = true := by
    intro n
    induction n with
    | zero => exact Or.inl hstart
    | succ n ih =>
      rcases ih with hticks | hended
      · rw [TicksAt, succ_of_tick hruns hticks]
        by_cases hv : (runs n).verdict h (clock n) = .running
        · exact Or.inl (phase_tick_of_running hv)
        · exact Or.inr (ended_of_stopped (phase_tick_of_not_running hv))
      · rw [hruns, feed_of_ended hended]
        exact Or.inr hended
  exact (hall n).resolve_right (Bool.eq_false_iff.mp hn)

/-- Only a tick that is not left running ends a run. -/
theorem exists_of_ended (hstart : TicksAt runs 0) (hn : (runs n).ended = true) :
    ∃ p, p < n ∧ TicksAt runs p ∧ (runs p).verdict h (clock p) ≠ .running := by
  obtain ⟨p, hp, hticks, hended⟩ := (feeding_feed h interval).exists_of_ended hruns hstart hn
  refine ⟨p, hp, hticks, fun hv => ?_⟩
  rw [succ_of_tick hruns hticks, ended, phase_tick_of_running hv] at hended
  cases interval <;> cases hended

theorem exists_quitsAt (hstart : TicksAt runs 0) (hn : (runs n).phase = .stopped .quit) :
    ∃ p, p < n ∧ QuitsAt h clock runs p := by
  obtain ⟨p, hp, hticks, hv⟩ := exists_of_ended hruns hstart (ended_of_stopped hn)
  have hstopped := (stopped_of_tick hruns hticks hv hp).2
  rw [hn, Phase.stopped.injEq] at hstopped
  exact ⟨p, hp, hticks, verdict_eq_quit_iff.mp hstopped.symm⟩

/-- The run is told to quit by the first tick that is, and by nothing else. -/
theorem stopped_quit_iff (hstart : TicksAt runs 0) :
    (runs n).phase = .stopped .quit ↔ ∃ p, p < n ∧ QuitsAt h clock runs p := by
  constructor
  · exact exists_quitsAt hruns hstart
  · rintro ⟨p, hp, hticks, hquit⟩
    have hv : (runs p).verdict h (clock p) = .quit := verdict_eq_quit_iff.mpr hquit
    have hstopped := (stopped_of_tick hruns hticks (by rw [hv]; exact Verdict.noConfusion) hp).2
    rwa [hv] at hstopped

theorem phase_after_tick {speed : Binary64} (hinterval : interval = some (Binary64.div 1 speed))
    (hp : TicksAt runs p) (hv : (runs p).verdict h (clock p) = .running) :
    (runs (p + 1)).phase = .waiting (deadline clock speed p) := by
  rw [succ_of_tick hruns hp, phase_tick_of_running hv, hinterval]
  rfl

end

/-! ## Clocks and speeds -/

theorem stepInterval_of_pos {speed : Binary64} (h : Binary64.lt 0 speed = true) :
    stepInterval speed = some (Binary64.div 1 speed) := by
  unfold stepInterval
  rw [if_neg (Bool.eq_false_iff.mp (Binary64.le_eq_false_of_lt h))]

/-- A clock that does not go back stays at or behind what it has reached. -/
theorem le_of_reached (hfinite : ∀ n, ∃ time, clock n = .finite time)
    (hsorted : ∀ n, (clock n).le (clock (n + 1)) = true) (hq : d.le (clock q) = true)
    (hn : q ≤ n) : d.le (clock n) = true := by
  induction n, hn using Nat.le_induction with
  | base => exact hq
  | succ n _ ih =>
    have hnext := hsorted n
    obtain ⟨time, htime⟩ := hfinite n
    obtain ⟨later, hlater⟩ := hfinite (n + 1)
    rw [htime] at ih hnext
    rw [hlater] at hnext ⊢
    exact Binary64.le_finite_trans ih (Binary64.finite_le_finite.mp hnext)

theorem reached_iff {speed : Binary64} (hspeed : Binary64.lt 0 speed = true)
    (hfinite : ∀ n, ∃ time, clock n = .finite time) (p q : Nat) :
    (clock q).lt (deadline clock speed p) = false ↔
      (deadline clock speed p).le (clock q) = true := by
  obtain ⟨time, htime⟩ := hfinite p
  obtain ⟨later, hlater⟩ := hfinite q
  have hdeadline : deadline clock speed p ≠ .undefined := by
    rw [deadline, htime]
    exact Binary64.finite_add_ne_undefined (Binary64.div_ne_undefined hspeed)
  exact Binary64.lt_eq_false_iff (hlater ▸ Binary64.finite_ne_undefined) hdeadline

/-- Whatever the clock shows, its first reading is a tick's, and every reading up to the end of the
run is used once: for a tick, or for a look at the clock that changes neither loop nor host. With a
speed above zero, a tick that does not end the run is followed by one with the reading right behind
the first one that is not below its deadline, the rounded sum of its own reading and the interval.
So on a clock that does not go back no later tick comes before that. With a speed of zero or below
all readings are for ticks. At the first tick that is told to quit the run ends, and no reading is
made after that. -/
theorem ticks_paced (h : Host σ) (m : Machine) (s : σ) (speed : Binary64)
    (clock : Nat → Binary64) :
    let runs := along h (stepInterval speed) clock (start h m s)
    TicksAt runs 0 ∧
    (∀ n, (runs n).ended = false → (runs n).readings = n ∧
      (TicksAt runs n → runs (n + 1) = (runs n).tick h (stepInterval speed) (clock n)) ∧
      (¬ TicksAt runs n →
        (runs (n + 1)).loop = (runs n).loop ∧ (runs (n + 1)).host = (runs n).host)) ∧
    (Binary64.lt 0 speed = true →
      (∀ p, TicksAt runs p → (runs p).verdict h (clock p) = .running →
        ∀ n, NextTick runs p n ↔
          ∃ q, n = q + 1 ∧ FirstReached clock (deadline clock speed p) p q) ∧
      ((∀ n, ∃ time, clock n = .finite time) →
        (∀ p q, (clock q).lt (deadline clock speed p) = false ↔
          (deadline clock speed p).le (clock q) = true) ∧
        ((∀ n, (clock n).le (clock (n + 1)) = true) →
          ∀ p n, p < n → TicksAt runs p → TicksAt runs n →
            (deadline clock speed p).le (clock n) = true))) ∧
    (speed.le 0 = true → ∀ n, (runs n).ended = false → TicksAt runs n) ∧
    (∀ n, (runs n).phase = .stopped .quit ↔ ∃ p, p < n ∧ QuitsAt h clock runs p) ∧
    ∀ p, TicksAt runs p → (runs p).verdict h (clock p) ≠ .running →
      ∀ n, p < n → runs n = runs (p + 1) ∧ (runs n).readings = p + 1 ∧
        (runs n).phase = .stopped ((runs p).verdict h (clock p)) := by
  intro runs
  have hruns : ∀ n, runs (n + 1) = (runs n).feed h (stepInterval speed) (clock n) := along_succ
  have hstart : TicksAt runs 0 := rfl
  have hreadings : ∀ n, (runs n).ended = false → (runs n).readings = n := fun _ =>
    (feeding_feed h _).readings_of_not_ended hruns rfl
  refine ⟨hstart, ?_, ?_, ?_, fun n => stopped_quit_iff hruns hstart, ?_⟩
  · intro n hn
    refine ⟨hreadings n hn, succ_of_tick hruns, fun hticks => ?_⟩
    rw [hruns]
    exact feed_of_not_ready hticks
  · intro hspeed
    have hwait := fun p => phase_after_tick hruns (p := p) (stepInterval_of_pos hspeed)
    refine ⟨fun p hp hv n => nextTick_iff hruns (hwait p hp hv), fun hfinite => ?_⟩
    refine ⟨reached_iff hspeed hfinite, fun hsorted p n hlater hp hn => ?_⟩
    have hv := running_of_tick hruns hp hlater hn
    obtain ⟨q, hqn, hq⟩ := exists_reached hruns (hwait p hp hv) hlater hn
    exact le_of_reached hfinite hsorted ((reached_iff hspeed hfinite p q).mp hq) (Nat.le_of_lt hqn)
  · intro hspeed n hn
    exact ticksAt_of_no_interval hruns (if_pos hspeed) hstart hn
  · intro p hp hv n hn
    obtain ⟨hsame, hstopped⟩ := stopped_of_tick hruns hp hv hn
    have hp' : (runs p).ended = false := ended_of_ready hp
    refine ⟨hsame, ?_, hstopped⟩
    rw [hsame, hruns, readings_feed hp', hreadings p hp']

theorem running_of_jump {m : Machine} (hm : Reachable m) (hpc : m.pc = 0x200)
    (hb : ∀ a, m.memory.byteAt a = Rom.imageAt [0x12, 0x00] a)
    (hkeys : m.keys = Vector.replicate 16 false) (hbeeps : m.beeps = 0)
    (hstays : ∀ t s, (h.poll t s).1.quit = false) (s : σ) (ht : t ≠ .infinite false) :
    (start h m s).verdict h t = .running := by
  have hquit : (start h m s).verdict h t ≠ .quit := by
    rw [Ne, verdict_eq_quit_iff, hstays]
    exact fun hq => Bool.false_ne_true hq.2
  have hmirrors : Mirrors (Bare.start m) (History.start m) :=
    mirrors_start hm.invariant hkeys hbeeps
  obtain ⟨hverdict, _⟩ := hmirrors.step hquit ht
  exact hverdict.trans (congrArg Verdict.ofStep (step_of_jump hm hpc hb _).1)

/-- With half a step a second on a clock of whole seconds, the tick at zero is followed by one at
three, as the wait ends at two. -/
theorem ticks_paced_halfSpeed :
    let h := Recorder.host (Vector.replicate 16 false) none
    let speed : Binary64 := .finite (1 / 2)
    let clock : Nat → Binary64 := fun n => .finite n
    let m := boot [0x12, 0x00] false fun _ => 0
    let runs := along h (stepInterval speed) clock (start h m Recorder.empty)
    Binary64.lt 0 speed = true ∧ (∀ n, ∃ time, clock n = .finite time) ∧
      (∀ n, (clock n).le (clock (n + 1)) = true) ∧ TicksAt runs 0 ∧
      (runs 0).verdict h (clock 0) = .running ∧ NextTick runs 0 3 ∧
      (deadline clock speed 0).le (clock 3) = true := by
  have fits : [0x12, (0x00 : UInt8)].length ≤ Rom.maxLength := by decide
  have hm : Reachable (boot [0x12, 0x00] false fun _ => 0) := .boot _ _ fits
  have hb := byteAt_boot fits false fun _ => 0
  have hpc : (boot [0x12, 0x00] false fun _ => 0).pc = 0x200 := rfl
  have hkeys : (boot [0x12, 0x00] false fun _ => 0).keys = Vector.replicate 16 false := rfl
  have hbeeps : (boot [0x12, 0x00] false fun _ => 0).beeps = 0 := rfl
  generalize boot [0x12, 0x00] false (fun _ => 0) = m at hm hb hpc hkeys hbeeps
  intro h speed clock m' runs
  have hspeed : Binary64.lt 0 speed = true := by decide +kernel
  have hfinite : ∀ n, ∃ time, clock n = .finite time := fun n => ⟨n, rfl⟩
  have hsorted : ∀ n, (clock n).le (clock (n + 1)) = true := fun n =>
    Binary64.finite_le_finite.mpr (Rat.natCast_le_natCast.mpr (Nat.le_succ n))
  have hdeadline : deadline clock speed 0 = .finite 2 := by decide +kernel
  have hreached : FirstReached clock (deadline clock speed 0) 0 2 := by
    rw [hdeadline]
    refine ⟨by decide, by decide +kernel, fun j hj hlt => ?_⟩
    obtain rfl : j = 1 := by omega
    decide +kernel
  have hverdict : (runs 0).verdict h (clock 0) = .running :=
    running_of_jump hm hpc hb hkeys hbeeps (fun _ _ => rfl) _ nofun
  obtain ⟨hfirst, _, hpaced, _⟩ := ticks_paced h m Recorder.empty speed clock
  obtain ⟨hnext, hapart⟩ := hpaced hspeed
  have hthird : NextTick runs 0 3 := (hnext 0 hfirst hverdict 3).mpr ⟨2, rfl, hreached⟩
  exact ⟨hspeed, hfinite, hsorted, hfirst, hverdict, hthird,
    (hapart hfinite).2 hsorted 0 3 (by decide) hfirst hthird.ticks⟩

end Chip8.HostLoop.Runner
