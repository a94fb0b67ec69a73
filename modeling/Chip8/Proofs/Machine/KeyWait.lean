import Chip8.Proofs.Machine.ControlFlow
import Chip8.Proofs.Machine.Footprint
import Chip8.Proofs.Machine.Standstill

/-! # Waiting for a key

The instruction that waits for a key does not wait: while no key is held down it leaves the program
counter where it is, so the next step finds it again. The timers run down in the meantime. The first
step that finds keys held down takes the one with the lowest number and goes on. -/

namespace Chip8.Machine

/-- No key is held down. -/
def NonePressed (keys : Vector Bool 16) : Prop := ∀ key, keys.get key = false

/-- The key with the lowest number among those that are held down. -/
structure LowestPressed (keys : Vector Bool 16) (key : Fin 16) : Prop where
  pressed : keys.get key = true
  lowest : ∀ lower < key, keys.get lower = false

/-- The machine after `n` steps, where the host sets the keys before each of them. -/
def underKeys (m : Machine) (keys : Nat → Vector Bool 16) : Nat → Machine
  | 0 => m
  | n + 1 => ((m.underKeys keys n).setKeys (keys n)).step.machine

variable {m s : Machine} {keys : Nat → Vector Bool 16} {n : Nat} {x : Int}

/-! ## The first key -/

theorem lowestPressed_of_firstKey? {key : Fin 16} (h : m.firstKey? = some key) :
    LowestPressed m.keys key := by
  obtain ⟨hpressed, i, hi, hkey, hlower⟩ := List.find?_eq_some_iff_getElem.mp h
  rw [List.getElem_finRange] at hkey
  subst hkey
  refine ⟨hpressed, ?_⟩
  intro lower hlt
  have hj : (lower : Nat) < i := hlt
  have hno := hlower lower hj
  rw [List.getElem_finRange] at hno
  simpa using hno

/-! ## One step -/

theorem step_of_waitKey (hs : Invariant s) (hrun : s.halted = false)
    (hc : s.current? = some (.waitKey x)) (held : Vector Bool 16) :
    (s.setKeys held).step = ((s.setKeys held).begun (.waitKey x)).execute (.waitKey x) :=
  step_of_current? (m := s.setKeys held) hs.pc.1 hrun hc

theorem standstill_setKeys (hs : Invariant s) (held : Vector Bool 16) (inst : Instruction) :
    Standstill s 1 ((s.setKeys held).begun inst) := by
  have h : Standstill (s.setKeys held) 1 ((s.setKeys held).begun inst) :=
    standstill_begun (hs.act (.setKeys held)) inst
  exact { h with still := { h.still with } }

theorem step_of_nonePressed (hs : Invariant s) (hrun : s.halted = false)
    (hc : s.current? = some (.waitKey x)) {held : Vector Bool 16} (hnone : NonePressed held) :
    (s.setKeys held).step.fault = none ∧ Standstill s 1 (s.setKeys held).step.machine := by
  have hkey : ((s.setKeys held).begun (.waitKey x)).firstKey? = none :=
    firstKey?_eq_none_iff.mpr hnone
  rw [step_of_waitKey hs hrun hc, execute, hkey]
  exact ⟨rfl, standstill_setKeys hs held _⟩

/-- Apart from the register and the program counter, a step that takes a key does nothing but
count. -/
theorem step_of_pressed (hs : Invariant s) (hrun : s.halted = false)
    (hc : s.current? = some (.waitKey x)) {held : Vector Bool 16} (hsome : ¬ NonePressed held) :
    let next := (s.setKeys held).step
    next.fault = none ∧ ∃ key, LowestPressed held key ∧
      (∀ r, next.machine.v.get r = if r = register x then UInt8.ofNat key else s.v.get r) ∧
      next.machine.pc = s.pc + 2 ∧
      Standstill s 1 { next.machine with v := s.v, pc := s.pc } := by
  intro next
  cases hkey : ((s.setKeys held).begun (.waitKey x)).firstKey? with
  | none => exact absurd (firstKey?_eq_none_iff.mp hkey) hsome
  | some key =>
    have hnext : next =
        done (((s.setKeys held).begun (.waitKey x)).setReg x (UInt8.ofNat key)).next := by
      simp only [next, step_of_waitKey hs hrun hc, execute, hkey]
    rw [hnext]
    refine ⟨rfl, key, lowestPressed_of_firstKey? hkey, ?_, rfl, ?_⟩
    · exact fun r => get_setReg _ x _ r
    · have h := standstill_setKeys hs held (.waitKey x)
      exact { h with still := { h.still with } }

/-! ## The whole wait -/

theorem Invariant.underKeys (hm : Invariant m) (keys : Nat → Vector Bool 16) (n : Nat) :
    Invariant (m.underKeys keys n) := by
  induction n with
  | zero => exact hm
  | succ n ih => exact (ih.act (.setKeys (keys n))).act .step

theorem standstill_underKeys (hm : Invariant m) (hrun : m.halted = false)
    (hc : m.current? = some (.waitKey x)) (hquiet : ∀ k < n, NonePressed (keys k)) :
    Standstill m n (m.underKeys keys n) := by
  induction n with
  | zero => exact standstill_zero hm
  | succ n ih =>
    have h := ih fun k hk => hquiet k (Nat.lt_succ_of_lt hk)
    have hs := hm.underKeys keys n
    have hnext := (step_of_nonePressed hs (h.still.halted.trans hrun) (h.still.current?.trans hc)
      (hquiet n (Nat.lt_succ_self n))).2
    exact h.append hm hnext

/-- As long as no key is held down, every step only counts, whatever the keys are later. The first
step that finds a key held down puts the lowest one into the register and goes on; all else stays
as in the steps before. -/
theorem Reachable.waits_for_key (h : Reachable m) (hrun : m.halted = false)
    (hc : m.current? = some (.waitKey x)) (keys : Nat → Vector Bool 16) (n : Nat)
    (hquiet : ∀ k < n, NonePressed (keys k)) :
    let s := m.underKeys keys n
    let next := (s.setKeys (keys n)).step
    Standstill m n s ∧ next.fault = none ∧
      (NonePressed (keys n) → Standstill s 1 next.machine) ∧
      (¬ NonePressed (keys n) → ∃ key, LowestPressed (keys n) key ∧
        (∀ r, next.machine.v.get r = if r = register x then UInt8.ofNat key else m.v.get r) ∧
        next.machine.pc = m.pc + 2 ∧
        Standstill s 1 { next.machine with v := m.v, pc := m.pc }) := by
  intro s next
  have hs : Invariant s := h.invariant.underKeys keys n
  have hstand : Standstill m n s := standstill_underKeys h.invariant hrun hc hquiet
  have hrun' : s.halted = false := hstand.still.halted.trans hrun
  have hc' : s.current? = some (.waitKey x) := hstand.still.current?.trans hc
  by_cases hnone : NonePressed (keys n)
  · obtain ⟨hfault, hnext⟩ := step_of_nonePressed hs hrun' hc' hnone
    exact ⟨hstand, hfault, fun _ => hnext, fun hsome => absurd hnone hsome⟩
  · obtain ⟨hfault, hnext⟩ := step_of_pressed hs hrun' hc' hnone
    rw [hstand.still.v, hstand.still.pc] at hnext
    exact ⟨hstand, hfault, fun hno => absurd hno hnone, fun _ => hnext⟩

/-- A program that loads 2 into the sound timer and then waits for a key in `V3`. -/
def soundsThenWaits : List UInt8 := [0x60, 0x02, 0xF0, 0x18, 0xF3, 0x0A]

/-- No key at first; from the fourth step on the keys 5 and 9. -/
def fromFourthStep (k : Nat) : Vector Bool 16 :=
  if k < 3 then Vector.replicate 16 false else Vector.ofFn fun key => key.val == 5 || key.val == 9

theorem nonePressed_fromFourthStep (k : Nat) (hk : k < 3) : NonePressed (fromFourthStep k) := by
  intro key
  rw [fromFourthStep, if_pos hk]
  exact Vector.getElem_replicate _

theorem eq_five_of_lowestPressed {key : Fin 16} (h : LowestPressed (fromFourthStep 3) key) :
    key.val = 5 := by
  have hall : ∀ key : Fin 16, (fromFourthStep 3).get key = true →
      (∀ lower < key, (fromFourthStep 3).get lower = false) → key.val = 5 := by decide
  exact hall key h.pressed h.lowest

theorem taken_of_threeSteps {m' : Machine} {key : Fin 16} (hm : Invariant m) (hpc : m.pc = 0x204)
    (hst : m.st = 2) (hstand : Standstill m 3 s) (hkey : LowestPressed (fromFourthStep 3) key)
    (hreg : ∀ r, m'.v.get r = if r = register 3 then UInt8.ofNat key else m.v.get r)
    (hnext : m'.pc = m.pc + 2) (hlast : Standstill s 1 { m' with v := m.v, pc := m.pc }) :
    (m'.reg 3).toNat = 5 ∧ m'.pc = 0x206 ∧ m'.ticks = m.ticks + 4 ∧ m'.st = 0 ∧
      (m'.beeps : Int) = m.beeps + 2 := by
  have hall : Standstill m 4 { m' with v := m.v, pc := m.pc } := hstand.append hm hlast
  have hsound := hall.st
  have hbeeps := hall.beeps
  rw [hst] at hsound hbeeps
  refine ⟨?_, ?_, hall.ticks, hsound, hbeeps⟩
  · have hthree : m'.reg 3 = _ := hreg (register 3)
    rw [hthree, if_pos rfl, eq_five_of_lowestPressed hkey]
    rfl
  · rw [hnext, hpc]
    rfl

/-- Three steps wait, and two of them sound. The fourth takes key 5. -/
theorem waits_for_key_threeSteps :
    let m := (boot soundsThenWaits false fun _ => 0).after [.step, .step]
    let m' := ((m.underKeys fromFourthStep 3).setKeys (fromFourthStep 3)).step.machine
    (Reachable m ∧ m.halted = false ∧ m.current? = some (.waitKey 3) ∧
      ∀ k < 3, NonePressed (fromFourthStep k)) ∧
      (m'.reg 3).toNat = 5 ∧ m'.pc = 0x206 ∧ m'.ticks = m.ticks + 4 ∧ m'.st = 0 ∧
      (m'.beeps : Int) = m.beeps + 2 := by
  intro m
  have fits : soundsThenWaits.length ≤ Rom.maxLength := by decide
  have h : Reachable (boot soundsThenWaits false fun _ => 0) := .boot _ _ fits
  have hb := byteAt_boot fits false fun _ => 0
  have hm : Reachable m := h.after [.step, .step]
  obtain ⟨hpc, hst, hrun, hc⟩ :
      m.pc = 0x204 ∧ m.st = 2 ∧ m.halted = false ∧ m.current? = some (.waitKey 3) :=
    soundsThen_run h rfl hb
  clear_value m
  have hpressed : ¬ NonePressed (fromFourthStep 3) := fun hnone => absurd (hnone 5) (by decide)
  obtain ⟨hstand, _, _, htaken⟩ :=
    hm.waits_for_key hrun hc fromFourthStep 3 nonePressed_fromFourthStep
  obtain ⟨key, hkey, hreg, hnext, hlast⟩ := htaken hpressed
  exact ⟨⟨hm, hrun, hc, nonePressed_fromFourthStep⟩,
    taken_of_threeSteps hm.invariant hpc hst hstand hkey hreg hnext hlast⟩

end Chip8.Machine
