import Chip8.Proofs.Machine.Footprint

/-! # Registers stored in memory and loaded again

Storing puts the registers `V0` to `Vx` at the index and after it, and loading takes them from
there. Between the two a program may do what it likes, as long as it does not write to these cells:
the registers that are loaded are the ones that were stored. Loaded first and stored again at once,
they are written over the same bytes. -/

namespace Chip8.Machine

open Instruction

/-- The machines that come of `m` by instructions that are not stopped and do not write to the cells
from `low` to `high`: executed by themselves, as words, or in steps, between which the host may set
the keys. -/
inductive Spares (low high : Int) (m : Machine) : Machine → Prop
  | start : Spares low high m m
  | keys {s : Machine} (keys : Vector Bool 16) (h : Spares low high m s) :
      Spares low high m (s.setKeys keys)
  | execute {s : Machine} {inst : Instruction} (h : Spares low high m s) (he : inst.Encodable)
      (hf : (s.execute inst).fault = none)
      (hno : ∀ a : Nat, low ≤ a → a ≤ high → ¬ s.Writes inst (.cell a)) :
      Spares low high m (s.execute inst).machine
  | word {s : Machine} {word : Int} {inst : Instruction} (h : Spares low high m s)
      (hd : decode? (.ofInt word) = some inst) (hf : (s.executeWord word).fault = none)
      (hno : ∀ a : Nat, low ≤ a → a ≤ high → ¬ s.Writes inst (.cell a)) :
      Spares low high m (s.executeWord word).machine
  | step {s : Machine} (h : Spares low high m s) (hf : s.step.fault = none)
      (hno : ∀ inst, s.halted = false → s.current? = some inst →
        ∀ a : Nat, low ≤ a → a ≤ high → ¬ s.Writes inst (.cell a)) :
      Spares low high m s.step.machine

variable {m s : Machine} {inst : Instruction} {low high x : Int}

/-! ## The cells that are spared -/

/-- What sparing some cells keeps. The index is no part of them, but it says which cells an
instruction writes, if it is not negative. -/
structure Kept (low high : Int) (m s : Machine) : Prop where
  index : 0 ≤ s.i
  size : s.memory.size = m.memory.size
  cells : ∀ a : Nat, low ≤ a → a ≤ high → s.memory.byteAt a = m.memory.byteAt a

theorem indexAfter_nonneg (hi : 0 ≤ m.i) (he : inst.Encodable) : 0 ≤ m.indexAfter inst := by
  cases inst
  case setIndex nnn => exact he.1
  case addIndex x =>
    simp only [indexAfter]
    omega
  case fontIndex x =>
    simp only [indexAfter, glyphSize]
    omega
  all_goals exact hi

theorem Kept.execute (h : Kept low high m s) (he : inst.Encodable)
    (hno : ∀ a : Nat, low ≤ a → a ≤ high → ¬ s.Writes inst (.cell a)) :
    Kept low high m (s.execute inst).machine where
  index := by
    rw [(execute_effect s inst).i]
    exact indexAfter_nonneg h.index he
  size := (size_execute s inst).trans h.size
  cells a hlow hhigh := (cell_execute h.index he (hno a hlow hhigh)).trans (h.cells a hlow hhigh)

/-- A step from below the addresses is stopped as it fetches. -/
theorem pc_nonneg_of_step (hrun : s.halted = false) (hf : s.step.fault = none) : 0 ≤ s.pc := by
  by_cases hpc : 0 ≤ s.pc
  · exact hpc
  · have hfetch : s.countDown.fetch =
        .error (.memory (.outOfRange (s.memory.blamed s.pc instructionSize))) := by
      have hread := Memory.readBlock_eq s.memory s.pc (n := instructionSize) (by decide)
      rw [if_neg (fun hin => hpc hin.1)] at hread
      simp only [fetch, countDown, hread]
    simp only [Machine.step, hrun, hfetch] at hf
    cases hf

theorem Kept.step (h : Kept low high m s) (hf : s.step.fault = none)
    (hno : ∀ inst, s.halted = false → s.current? = some inst →
      ∀ a : Nat, low ≤ a → a ≤ high → ¬ s.Writes inst (.cell a)) :
    Kept low high m s.step.machine := by
  cases hh : s.halted with
  | true =>
    rw [step_of_halted hh]
    exact h
  | false =>
    rcases running_cases (pc_nonneg_of_step hh hf) hh with ⟨_, hs⟩ | ⟨inst, hc, hs⟩
    · rw [hs]
      exact { h with }
    · rw [hs]
      have hbegun : Kept low high m (s.begun inst) := { h with }
      apply hbegun.execute (encodable_of_current? hc)
      intro a hlow hhigh hw
      exact hno inst hh hc a hlow hhigh ((writes_congr rfl).mp hw)

theorem Spares.kept (h : Spares low high m s) (hi : 0 ≤ m.i) : Kept low high m s := by
  induction h with
  | start => exact ⟨hi, rfl, fun _ _ _ => rfl⟩
  | keys keys _ ih => exact { ih with }
  | execute _ he _ hno ih => exact ih.execute he hno
  | @word s word inst _ hd _ hno ih =>
    obtain ⟨printed, heq⟩ := executeWord_eq (m := s) hd
    rw [heq]
    have hnoted : Kept low high m { s with opcode := word, printed := printed } := { ih with }
    apply hnoted.execute (encodable_of_decode? hd)
    intro a hlow hhigh hw
    exact hno a hlow hhigh ((writes_congr rfl).mp hw)
  | step _ hf hno ih => exact ih.step hf hno

/-! ## One transfer -/

theorem getD_registersUpTo (hx : IsDigit x) (m : Machine) (k : Fin 16) (b : UInt8) :
    (m.registersUpTo x).getD k b = if (k : Int) ≤ x then m.v.get k else b := by
  obtain ⟨hlow, hhigh⟩ := hx
  unfold registersUpTo
  rw [List.getD_eq_getElem?_getD, List.getElem?_take]
  by_cases hk : (k : Int) ≤ x
  · rw [if_pos hk, if_pos (by omega)]
    simp [Vector.get]
  · rw [if_neg hk, if_neg (by omega)]
    rfl

/-- The registers that were just loaded are the bytes that they were loaded from. -/
theorem registersUpTo_setRegisters (hx : IsDigit x) (m : Machine) {bytes : List UInt8}
    (hlen : (bytes.length : Int) = x + 1) : (m.setRegisters bytes).registersUpTo x = bytes := by
  obtain ⟨hlow, hhigh⟩ := hx
  apply List.ext_getElem
  · have hstored := length_registersUpTo (m.setRegisters bytes) ⟨hlow, hhigh⟩
    omega
  · intro k hk hk'
    simp [registersUpTo, setRegisters, hk']

/-- The registers up to `Vx` are stored if there is room for them at the index. -/
theorem execute_storeRegisters (hx : IsDigit x) (hi : 0 ≤ m.i)
    (hroom : m.i + x < m.memory.size) :
    m.execute (.storeRegisters x) =
      done { m with memory := m.memory.setBlock m.i.toNat (m.registersUpTo x) }.next := by
  have hlen := length_registersUpTo m hx
  have hwrite : m.memory.writeBlock m.i.toNat (m.registersUpTo x) =
      .ok (m.memory.setBlock m.i.toNat (m.registersUpTo x)) := Memory.writeBlock_of_le (by omega)
  rw [Int.toNat_of_nonneg hi] at hwrite
  simp only [Machine.execute, hwrite]

theorem memory_storeRegisters (hx : IsDigit x) (hi : 0 ≤ m.i)
    (hroom : m.i + x < m.memory.size) :
    (m.execute (.storeRegisters x)).machine.memory =
      m.memory.setBlock m.i.toNat (m.registersUpTo x) := by
  rw [execute_storeRegisters hx hi hroom]
  rfl

theorem execute_loadRegisters (hx : IsDigit x) (hi : 0 ≤ m.i)
    (hroom : m.i + x < m.memory.size) :
    m.execute (.loadRegisters x) =
      done (m.setRegisters (m.memory.blockAt m.i (x + 1).toNat)).next := by
  have hcount : ((x + 1).toNat : Int) = x + 1 := Int.toNat_of_nonneg (by have := hx.1; omega)
  have hread := Memory.readBlock_of_fits (m := m.memory) (a := m.i) (n := (x + 1).toNat)
    (Or.inr ⟨hi, by omega⟩)
  rw [hcount] at hread
  simp only [Machine.execute, hread]

/-- Without room for the registers neither transfer does anything. -/
theorem execute_storeRegisters_of_no_room (hx : IsDigit x)
    (hno : ¬ (0 ≤ m.i ∧ m.i + x < m.memory.size)) :
    (m.execute (.storeRegisters x)).machine = m := by
  have hlen := length_registersUpTo m hx
  have hwrite := Memory.writeBlock_eq m.memory m.i (registersUpTo_ne_nil m hx)
  rw [if_neg (by omega)] at hwrite
  simp only [Machine.execute, hwrite]
  rfl

theorem execute_loadRegisters_of_no_room (hx : IsDigit x)
    (hno : ¬ (0 ≤ m.i ∧ m.i + x < m.memory.size)) :
    (m.execute (.loadRegisters x)).machine = m := by
  have hread := Memory.readBlock_eq m.memory m.i (n := x + 1) (by have := hx.1; omega)
  rw [if_neg (by omega)] at hread
  simp only [Machine.execute, hread]
  rfl

/-! ## There and back -/

@[simp] theorem registersUpTo_loaded (m : Machine) (bytes : List UInt8) (x : Int) :
    (done (m.setRegisters bytes).next).machine.registersUpTo x =
      (m.setRegisters bytes).registersUpTo x := by
  simp only [done, next, registersUpTo]

@[simp] theorem i_loaded (m : Machine) (bytes : List UInt8) :
    (done (m.setRegisters bytes).next).machine.i = m.i := by
  simp only [done, next, setRegisters]

@[simp] theorem memory_loaded (m : Machine) (bytes : List UInt8) :
    (done (m.setRegisters bytes).next).machine.memory = m.memory := by
  simp only [done, next, setRegisters]

/-- The registers up to `Vx` are again what they were in `m`. Nothing else that was stored or
changed since, up to `s`, is touched. -/
structure Restored (m s : Machine) (x : Int) (out : Outcome) : Prop where
  fault : out.fault = none
  registers : ∀ k : Fin 16,
    out.machine.v.get k = if (k : Int) ≤ x then m.v.get k else s.v.get k
  index : out.machine.i = m.i
  memory : out.machine.memory = s.memory

theorem restored_of_spares (hx : IsDigit x) (hi : 0 ≤ m.i) (hroom : m.i + x < m.memory.size)
    (h : Spares m.i (m.i + x) (m.execute (.storeRegisters x)).machine s) :
    Restored m s x ({ s with i := m.i }.execute (.loadRegisters x)) := by
  have hlow := hx.1
  have hlen := length_registersUpTo m hx
  have hstore := execute_storeRegisters hx hi hroom
  have hkept := h.kept (by rw [hstore]; exact hi)
  rw [hstore] at hkept
  have hsize : s.memory.size = m.memory.size := hkept.size.trans (Memory.size_setBlock _ _ _)
  -- The cells that are loaded hold what was stored in them.
  have hblock : s.memory.blockAt m.i (x + 1).toNat = m.registersUpTo x := by
    have hput : (m.memory.setBlock m.i.toNat (m.registersUpTo x)).blockAt m.i
        (m.registersUpTo x).length = m.registersUpTo x := Memory.blockAt_setBlock (by omega)
    have hcount : (x + 1).toNat = (m.registersUpTo x).length := by omega
    rw [hcount]
    refine (Memory.blockAt_congr ?_).trans hput
    intro k hk
    exact hkept.cells (m.i.toNat + k) (by omega) (by omega)
  have hload := execute_loadRegisters (m := { s with i := m.i }) hx hi (by simp only; omega)
  simp only [hblock] at hload
  rw [hload]
  constructor
  case fault => rfl
  case index => exact i_loaded _ _
  case memory => exact memory_loaded _ _
  case registers =>
    intro k
    exact (get_setRegisters _ _ k).trans (getD_registersUpTo hx m k _)

/-- What was just loaded is stored over itself. -/
theorem memory_store_load (hx : IsDigit x) (m : Machine) :
    ((m.execute (.loadRegisters x)).machine.execute (.storeRegisters x)).machine.memory =
      m.memory := by
  by_cases hroom : 0 ≤ m.i ∧ m.i + x < m.memory.size
  · have hlow := hx.1
    have hlen : ((m.memory.blockAt m.i (x + 1).toNat).length : Int) = x + 1 := by
      rw [Memory.length_blockAt]
      omega
    have hregs := registersUpTo_setRegisters hx m hlen
    rw [execute_loadRegisters hx hroom.1 hroom.2, memory_storeRegisters hx]
    · have hfits : m.i.toNat + (x + 1).toNat ≤ m.memory.size := by omega
      rw [registersUpTo_loaded, hregs, i_loaded, memory_loaded, Memory.setBlock_blockAt hfits]
    · simpa only [i_loaded] using hroom.1
    · simpa only [i_loaded, memory_loaded] using hroom.2
  · rw [execute_loadRegisters_of_no_room hx hroom, execute_storeRegisters_of_no_room hx hroom]

/-- Loading undoes storing over whatever spares the stored cells, once the index is set back.
Storing undoes loading. -/
theorem transfers_inverse (m : Machine) (x : Int) (hx : IsDigit x) :
    (0 ≤ m.i → m.i + x < m.memory.size →
      (m.execute (.storeRegisters x)).fault = none ∧
      ∀ s, Spares m.i (m.i + x) (m.execute (.storeRegisters x)).machine s →
        Restored m s x ({ s with i := m.i }.execute (.loadRegisters x))) ∧
    (0 ≤ m.i → m.i + x < m.memory.size →
      (m.execute (.loadRegisters x)).fault = none ∧
      ((m.execute (.loadRegisters x)).machine.execute (.storeRegisters x)).fault = none) ∧
    ((m.execute (.loadRegisters x)).machine.execute (.storeRegisters x)).machine.memory =
      m.memory := by
  refine ⟨?_, ?_, memory_store_load hx m⟩
  · intro hi hroom
    refine ⟨by rw [execute_storeRegisters hx hi hroom]; rfl, ?_⟩
    intro s h
    exact restored_of_spares hx hi hroom h
  · intro hi hroom
    have hload := execute_loadRegisters hx hi hroom
    refine ⟨by rw [hload]; rfl, ?_⟩
    rw [hload, execute_storeRegisters hx]
    · rfl
    · rwa [i_loaded]
    · rwa [i_loaded, memory_loaded]

/-- A machine with four bytes of memory, two registers set and the index at the third byte. -/
def atTop : Machine :=
  { ((initial (Memory.zeros 4) (CallStack.ofSize 0) (Screen.blank 8 1) false fun _ => 0).setReg 0
      7).setReg 1 9 with i := 2 }

/-- The last two bytes take `V0` and `V1`. The first of these is then overwritten, and so is the
index. -/
theorem transfers_inverse_atTop :
    (0 ≤ atTop.i ∧ atTop.i + 1 < atTop.memory.size) ∧
    ∃ s, Spares 2 3 (atTop.execute (.storeRegisters 1)).machine s ∧ s.reg 0 = 5 ∧ s.i = 0x123 ∧
      Restored atTop s 1 ({ s with i := 2 }.execute (.loadRegisters 1)) := by
  let stored := (atTop.execute (.storeRegisters 1)).machine
  let reloaded := (stored.executeWord 0x6005).machine
  have hreloaded : Spares 2 3 stored reloaded := by
    have hword : decode? (.ofInt 0x6005) = some (.loadByte 0 5) := rfl
    apply Spares.start.word hword rfl
    intro a _ _ h
    cases h
  have hmoved : Spares 2 3 stored (reloaded.executeWord 0xA123).machine := by
    have hword : decode? (.ofInt 0xA123) = some (.setIndex 0x123) := rfl
    apply hreloaded.word hword rfl
    intro a _ _ h
    cases h
  have hall := transfers_inverse atTop 1 ⟨by decide, by decide⟩
  exact ⟨by decide, _, hmoved, rfl, rfl, (hall.1 (by decide) (by decide)).2 _ hmoved⟩

end Chip8.Machine
