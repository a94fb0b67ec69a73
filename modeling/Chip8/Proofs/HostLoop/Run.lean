import Chip8.HostLoop.Run
import Chip8.Proofs.HostLoop.Tick

/-! # What a run keeps

A run ticks, waits and ends. Only ticks change the loop and its host, so what ticks keep of the two
holds throughout every run. -/

namespace Chip8.HostLoop.Runner

open Machine

variable {σ : Type} {h : Host σ} {interval : Option Binary64} {r : Runner σ} {t d : Binary64}

@[simp] theorem handleAll_cons (h : Host σ) (t : Binary64) (request : Request)
    (rest : List Request) (s : σ) :
    handleAll h t (request :: rest) s = handleAll h t rest (h.handle t request s) := rfl

@[simp] theorem handleAll_append (h : Host σ) (t : Binary64) (first rest : List Request) (s : σ) :
    handleAll h t (first ++ rest) s = handleAll h t rest (handleAll h t first s) :=
  List.foldl_append

theorem loop_tick :
    (r.tick h interval t).loop = (r.loop.tick t (r.input h t).1).loop := rfl

theorem host_tick : (r.tick h interval t).host =
    handleAll h t (r.loop.tick t (r.input h t).1).requests (r.input h t).2 := rfl

/-! ## One reading -/

theorem feed_of_ready (hready : r.phase = .ready) :
    r.feed h interval t = r.tick h interval t := by
  simp only [feed, hready]

theorem feed_of_waiting (hwait : r.phase = .waiting d) : r.feed h interval t =
    { r with phase := if t.lt d then .waiting d else .ready, readings := r.readings + 1 } := by
  simp only [feed, hwait]

theorem ended_of_ready (hready : r.phase = .ready) : r.ended = false := by
  simp only [ended, hready]

theorem ended_of_waiting (hwait : r.phase = .waiting d) : r.ended = false := by
  simp only [ended, hwait]

theorem ended_of_stopped {v : Verdict} (h : r.phase = .stopped v) : r.ended = true := by
  simp only [ended, h]

theorem feed_of_ended (hended : r.ended = true) : r.feed h interval t = r := by
  cases hphase : r.phase with
  | ready =>
    rw [ended_of_ready hphase] at hended
    cases hended
  | waiting d =>
    rw [ended_of_waiting hphase] at hended
    cases hended
  | stopped v => simp only [feed, hphase]

/-- A reading that is not used for a tick changes neither the loop nor the host. -/
theorem feed_of_not_ready (hready : r.phase ≠ .ready) :
    (r.feed h interval t).loop = r.loop ∧ (r.feed h interval t).host = r.host := by
  unfold feed
  split
  · contradiction
  · exact ⟨rfl, rfl⟩
  · exact ⟨rfl, rfl⟩

theorem feed_of_tick {P : HostLoop → σ → Prop}
    (hkept : ∀ (r : Runner σ) t, P r.loop r.host →
      P (r.tick h interval t).loop (r.tick h interval t).host)
    (hr : P r.loop r.host) : P (r.feed h interval t).loop (r.feed h interval t).host := by
  by_cases hready : r.phase = .ready
  · rw [feed_of_ready hready]
    exact hkept r t hr
  · obtain ⟨hloop, hhost⟩ := feed_of_not_ready (h := h) (t := t) hready
    rwa [hloop, hhost]

/-! ## A whole run -/

theorem run_cons_of_ready (hready : r.phase = .ready) (rest : List Binary64) :
    run h interval (t :: rest) r = run h interval rest (r.tick h interval t) := by
  rw [run, ended_of_ready hready, feed_of_ready hready]
  rfl

theorem run_concat (readings : List Binary64) (r : Runner σ) :
    run h interval (readings ++ [t]) r = (run h interval readings r).feed h interval t := by
  induction readings generalizing r with
  | nil =>
    rw [List.nil_append, run, run, run]
    split
    · exact (feed_of_ended (by assumption)).symm
    · rfl
  | cons first rest ih =>
    rw [List.cons_append, run, run]
    split
    · exact (feed_of_ended (by assumption)).symm
    · exact ih _

/-- What every tick keeps of the loop and its host holds after any readings. -/
theorem run_of_tick {P : HostLoop → σ → Prop}
    (hkept : ∀ (r : Runner σ) t, P r.loop r.host →
      P (r.tick h interval t).loop (r.tick h interval t).host)
    (hstart : P r.loop r.host) (readings : List Binary64) :
    P (run h interval readings r).loop (run h interval readings r).host := by
  induction readings generalizing r with
  | nil => exact hstart
  | cons t rest ih =>
    unfold run
    split
    · exact hstart
    · exact ih (feed_of_tick hkept hstart)

/-- What the host keeps with each of some requests it keeps with all of them. -/
theorem handleAll_of_keeps {P : σ → Prop} {requests : List Request}
    (hkept : ∀ request ∈ requests, ∀ s, P s → P (h.handle t request s)) {s : σ} (hs : P s) :
    P (handleAll h t requests s) := by
  induction requests generalizing s with
  | nil => exact hs
  | cons request rest ih =>
    rw [handleAll_cons]
    apply ih fun other hother => hkept other (List.mem_cons_of_mem request hother)
    exact hkept request List.mem_cons_self s hs

theorem input_of_keeps {P : σ → Prop} (hpoll : ∀ s, P s → P (h.poll t s).2) (hr : P r.host) :
    P (r.input h t).2 := by
  unfold input
  split
  · exact hpoll r.host hr
  · exact hr

theorem invariant_tick (hm : Invariant r.loop.machine) :
    Invariant (r.tick h interval t).loop.machine := by
  obtain ⟨actions, ha⟩ := machine_tick r.loop t (r.input h t).1
  rw [loop_tick, ha]
  exact hm.after actions

end Chip8.HostLoop.Runner
