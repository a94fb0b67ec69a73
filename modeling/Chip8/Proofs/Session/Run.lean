import Chip8.Proofs.HostLoop.Pacing
import Chip8.Session

/-! # A session while it runs

A session uses the readings of its clock as a loop does, but a tick of it may be broken off by the
clock of the bell. So only a tick ends a session, in one of three ways: with the verdict that the
user quits, with a fault, or with a clock that stops; and if no tick does, the loop's own clock
stops. -/

namespace Chip8

/-- What a clock shows at its reading number `n`, counted from zero. -/
def HostLoop.Clock.shows (clock : HostLoop.Clock) : Nat → Binary64
  | 0 => clock.now
  | n + 1 => (clock.shows n).add clock.step

namespace Session

open HostLoop Runner

variable {r : Runner Console} {t : Binary64} {interval : Option Binary64} {e : Ending}

/-- How the tick with the next reading ends the session, if it does. -/
def endOfTick (r : Runner Console) (t : Binary64) : Option Ending :=
  if (r.tick Console.host none t).host.clockStopped then some .clockStopped
  else match r.verdict Console.host t with
    | .running => none
    | .quit => some .quit
    | .faulted f => some (.faulted f)

/-- The run after the first `n` readings of a clock. -/
def along (interval : Option Binary64) (clock : Nat → Binary64) (r : Runner Console) :
    Nat → Runner Console
  | 0 => r
  | n + 1 => feed interval (along interval clock r n) (clock n)

/-! ## One tick -/

theorem tick_of_stopped (h : (r.tick Console.host none t).host.clockStopped = true) :
    tick interval r t = { r.tick Console.host interval t with
      loop := r.loop.breakOff t (r.input Console.host t).1.held
      phase := .stopped .running } := if_pos h

theorem tick_of_not_stopped (h : (r.tick Console.host none t).host.clockStopped = false) :
    tick interval r t = r.tick Console.host interval t := if_neg (Bool.eq_false_iff.mp h)

theorem host_tick : (tick interval r t).host = (r.tick Console.host interval t).host := by
  cases h : (r.tick Console.host none t).host.clockStopped with
  | true => rw [tick_of_stopped h]
  | false => rw [tick_of_not_stopped h]

theorem readings_tick : (tick interval r t).readings = r.readings + 1 := by
  cases h : (r.tick Console.host none t).host.clockStopped with
  | true => rw [tick_of_stopped h, Runner.tick]
  | false => rw [tick_of_not_stopped h, Runner.tick]

theorem endOfTick_of_quit (hgoes : (r.tick Console.host none t).host.clockStopped = false)
    (hquit : r.verdict Console.host t = .quit) : endOfTick r t = some .quit := by
  rw [endOfTick, if_neg (Bool.eq_false_iff.mp hgoes), hquit]

theorem ended_tick_of_none (h : endOfTick r t = none) : (tick interval r t).ended = false := by
  unfold endOfTick at h
  split at h
  · cases h
  · rename_i hgoes
    rw [tick_of_not_stopped (Bool.eq_false_iff.mpr hgoes)]
    have hv : r.verdict Console.host t = .running := by
      cases hv : r.verdict Console.host t with
      | running => rfl
      | quit | faulted =>
        rw [hv] at h
        cases h
    rw [ended, phase_tick_of_running hv]
    cases interval <;> rfl

theorem ended_tick_of_some (h : endOfTick r t = some e) :
    (tick interval r t).ended = true ∧ endingOf (tick interval r t).phase = e := by
  unfold endOfTick at h
  split at h
  · rename_i hstopped
    cases h
    rw [tick_of_stopped hstopped]
    exact ⟨rfl, rfl⟩
  · rename_i hgoes
    rw [tick_of_not_stopped (Bool.eq_false_iff.mpr hgoes)]
    cases hv : r.verdict Console.host t with
    | running =>
      rw [hv] at h
      cases h
    | quit | faulted =>
      have hnot : r.verdict Console.host t ≠ .running := by
        rw [hv]
        exact Verdict.noConfusion
      rw [hv] at h
      cases h
      rw [ended, phase_tick_of_not_running hnot, hv]
      exact ⟨rfl, rfl⟩

/-- A tick that ends the session with a fault is a whole tick of the loop. -/
theorem tick_of_faulted (interval : Option Binary64) {f : HostLoop.Fault}
    (h : endOfTick r t = some (.faulted f)) :
    tick interval r t = r.tick Console.host interval t ∧
      r.verdict Console.host t = .faulted f := by
  unfold endOfTick at h
  split at h
  · cases h
  · rename_i hgoes
    refine ⟨tick_of_not_stopped (Bool.eq_false_iff.mpr hgoes), ?_⟩
    cases hv : r.verdict Console.host t with
    | running | quit =>
      rw [hv] at h
      cases h
    | faulted f =>
      rw [hv] at h
      cases h
      rfl

/-! ## One reading -/

theorem feed_of_ready (hready : r.phase = .ready) : feed interval r t = tick interval r t := by
  simp only [feed, hready]

theorem feed_of_not_ready (hready : r.phase ≠ .ready) :
    feed interval r t = r.feed Console.host interval t := by
  unfold feed
  split
  · contradiction
  · rfl

theorem feed_of_ended (hended : r.ended = true) : feed interval r t = r := by
  rw [feed_of_not_ready, Runner.feed_of_ended hended]
  intro hready
  rw [ended_of_ready hready] at hended
  cases hended

theorem feeding_feed (interval : Option Binary64) : Feeding (feed interval) where
  ended _ _ := feed_of_ended
  waiting r t d hwait := by
    rw [feed_of_not_ready (by rw [hwait]; exact Phase.noConfusion)]
    exact (Runner.feeding_feed Console.host interval).waiting r t d hwait
  readings r t hended := by
    by_cases hready : r.phase = .ready
    · rw [feed_of_ready hready, readings_tick]
    · rw [feed_of_not_ready hready, Runner.readings_feed hended]

/-! ## From tick to tick -/

section
variable {runs : Nat → Runner Console} {clock : Nat → Binary64} {p n : Nat}
  (hruns : ∀ n, runs (n + 1) = feed interval (runs n) (clock n))
include hruns

/-- A tick that ends the session is the last one, and its reading is the last one. -/
theorem last_of_tick (hp : TicksAt runs p) (he : endOfTick (runs p) (clock p) = some e)
    (hn : p < n) : runs n = tick interval (runs p) (clock p) ∧ endingOf (runs n).phase = e := by
  have hnext : runs (p + 1) = tick interval (runs p) (clock p) := by rw [hruns, feed_of_ready hp]
  have hended : (runs (p + 1)).ended = true ∧ endingOf (runs (p + 1)).phase = e := by
    rw [hnext]
    exact ended_tick_of_some he
  rw [(feeding_feed interval).eq_of_ended hruns hended.1 hn]
  exact ⟨hnext, hended.2⟩

/-- Only a tick ends a session. -/
theorem exists_of_ended (hstart : TicksAt runs 0) (hn : (runs n).ended = true) :
    ∃ p, p < n ∧ TicksAt runs p ∧ ∃ e, endOfTick (runs p) (clock p) = some e := by
  obtain ⟨p, hp, hticks, hended⟩ := (feeding_feed interval).exists_of_ended hruns hstart hn
  refine ⟨p, hp, hticks, ?_⟩
  cases he : endOfTick (runs p) (clock p) with
  | some e => exact ⟨e, rfl⟩
  | none =>
    rw [hruns, feed_of_ready hticks, ended_tick_of_none he] at hended
    cases hended

end

/-! ## Clocks -/

/-- The readings that are made one by one are those of the clock. -/
theorem feedFrom_eq_along (interval : Option Binary64) (clock : Clock) (r : Runner Console)
    (n k : Nat) :
    feedFrom (feed interval) clock.step n (clock.shows k) (along interval clock.shows r k) =
      along interval clock.shows r (k + n) := by
  induction n generalizing k with
  | zero => rfl
  | succ n ih =>
    unfold feedFrom
    split
    · rename_i hended
      exact ((feeding_feed interval).eq_of_ended (fun _ => rfl) hended
        (Nat.le_add_right k (n + 1))).symm
    · rw [Nat.add_comm n 1, ← Nat.add_assoc]
      exact ih (k + 1)

end Session

end Chip8
