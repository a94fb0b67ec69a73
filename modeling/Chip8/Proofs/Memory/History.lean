import Chip8.Proofs.Memory

/-! # Memory as an array of bytes with a history

The calls to a memory that was never given a size decide everything about it. Its size is the last
one that was asked for and not refused, and the byte at an address is the one that was last written
there since. Whether a call is refused, and what is said then, depends on that size alone; a refused
call changes nothing. -/

namespace Chip8.Memory

/-- A call to a memory. -/
inductive Access
  | read (a : Int)
  | write (a value : Int)
  | readBlock (a : Int) (n : Nat)
  | writeBlock (a : Int) (block : List UInt8)
  | copy (target source : Int) (n : Nat)
  | resize (n : Int)
  | clear

/-- The answer of a call that changes memory, and the memory that it leaves. -/
def changed (m : Memory) : Except Fault Memory → Except Fault (List UInt8) × Memory
  | .ok m' => (.ok [], m')
  | .error f => (.error f, m)

/-- The answer of a call, the bytes that it reads, and the memory that it leaves. -/
def perform (m : Memory) : Access → Except Fault (List UInt8) × Memory
  | .read a => ((m.read a).map fun b => [b], m)
  | .write a value => m.changed (m.write a value)
  | .readBlock a n => (m.readBlock a n, m)
  | .writeBlock a block => m.changed (m.writeBlock a block)
  | .copy target source n => m.changed (m.copy target source n)
  | .resize n => m.changed (Memory.resize n)
  | .clear => m.changed (.ok m.clear)

/-- The memory after some calls, of which the newest comes first. -/
def afterCalls : List Access → Memory
  | [] => empty
  | c :: past => ((afterCalls past).perform c).2

/-! ## What the history says -/

/-- A block of `n` bytes is refused for its first address or, failing that, for its last one. -/
def blockRefusal? (size : Nat) (a : Int) (n : Nat) : Option Fault :=
  if n = 0 ∨ 0 ≤ a ∧ a + n ≤ size then none
  else if 0 ≤ a ∧ a < size then some (.outOfRange (a + n - 1))
  else some (.outOfRange a)

/-- Why a memory of this size refuses a call. -/
def Access.refusal? (size : Nat) : Access → Option Fault
  | .read a => blockRefusal? size a 1
  | .write a value =>
    (blockRefusal? size a 1).or (if 0 ≤ value ∧ value < 256 then none else some (.notByte value))
  | .readBlock a n => blockRefusal? size a n
  | .writeBlock a block => blockRefusal? size a block.length
  | .copy target source n => (blockRefusal? size source n).or (blockRefusal? size target n)
  | .resize n => if n < 0 then some (.negativeSize n) else none
  | .clear => none

/-- What a call reads from these bytes. -/
def Access.reads (bytes : Nat → UInt8) : Access → List UInt8
  | .read a => [bytes a.toNat]
  | .readBlock a n => (List.range n).map fun k => bytes (a.toNat + k)
  | _ => []

/-- What a call puts at an address, if it puts something there. A copy takes the old bytes. -/
def Access.puts? (bytes : Nat → UInt8) (c : Nat) : Access → Option UInt8
  | .write a value => if (c : Int) = a then some (UInt8.ofInt value) else none
  | .writeBlock a block =>
    if a ≤ c ∧ c < a + block.length then some (block.getD (c - a.toNat) 0) else none
  | .copy target source n =>
    if target ≤ c ∧ c < target + n then some (bytes (source + (c - target)).toNat) else none
  | .resize _ | .clear => some 0
  | .read _ | .readBlock _ _ => none

/-- The size after some calls, of which the newest comes first. -/
def sizeAfter : List Access → Nat
  | [] => 0
  | .resize n :: past => if n < 0 then sizeAfter past else n.toNat
  | _ :: past => sizeAfter past

/-- The byte that was last written to an address, zero if none was since all bytes were zero. -/
def lastWritten : List Access → Nat → UInt8
  | [], _ => 0
  | c :: past, a =>
    match c.refusal? (sizeAfter past), c.puts? (lastWritten past) a with
    | none, some b => b
    | _, _ => lastWritten past a

variable {m : Memory}

/-! ## A call that is refused, and one that is not -/

theorem blockRefusal?_eq (m : Memory) (a : Int) {n : Nat} (hn : 0 < n) :
    blockRefusal? m.size a n =
      if 0 ≤ a ∧ a + n ≤ m.size then none else some (.outOfRange (m.blamed a n)) := by
  unfold blockRefusal? blamed
  by_cases hin : 0 ≤ a ∧ a + n ≤ m.size
  · rw [if_pos (Or.inr hin), if_pos hin]
  · rw [if_neg (by omega), if_neg hin]
    by_cases ha : m.InRange a
    · rw [if_pos ha]
      exact if_pos ha
    · rw [if_neg ha]
      exact if_neg ha

theorem byteRefusal?_eq (m : Memory) (a : Int) :
    blockRefusal? m.size a 1 = if m.InRange a then none else some (.outOfRange a) := by
  rw [blockRefusal?_eq m a Nat.one_pos]
  by_cases ha : m.InRange a
  · have hlt := ha.2
    rw [if_pos ha, if_pos ⟨ha.1, by omega⟩]
  · have hout : ¬ (0 ≤ a ∧ a + (1 : Nat) ≤ m.size) := fun h => ha ⟨h.1, by omega⟩
    rw [if_neg ha, if_neg hout, blamed, if_neg ha]

theorem read_eq (m : Memory) (a : Int) :
    m.read a = if m.InRange a then .ok (m.byteAt a.toNat) else .error (.outOfRange a) := by
  unfold read
  by_cases ha : m.InRange a
  · have hlt : a.toNat < m.cells.size := by unfold InRange size at ha; omega
    rw [dif_pos ha, if_pos ha]
    simp [byteAt, Array.getD, hlt]
  · rw [dif_neg ha, if_neg ha]

theorem write_eq (m : Memory) (a value : Int) :
    m.write a value =
      if m.InRange a then
        if 0 ≤ value ∧ value < 256 then .ok (m.set a.toNat (UInt8.ofInt value))
        else .error (.notByte value)
      else .error (.outOfRange a) := by
  unfold write check store
  by_cases ha : m.InRange a
  · rw [if_pos ha, if_pos ha, if_pos ha]
    rfl
  · rw [if_neg ha, if_neg ha, if_neg ha]
    rfl

theorem readBlock_answer (m : Memory) (a : Int) (n : Nat) :
    m.readBlock a n = match blockRefusal? m.size a n with
      | some f => .error f
      | none => .ok (m.blockAt a n) := by
  by_cases hfits : n = 0 ∨ 0 ≤ a ∧ a + n ≤ m.size
  · rw [readBlock_of_fits hfits, blockRefusal?, if_pos hfits]
  · rw [not_or] at hfits
    rw [readBlock_eq m a (by omega), blockRefusal?_eq m a (by omega), if_neg hfits.2,
      if_neg hfits.2]

theorem writeBlock_answer (m : Memory) (a : Int) (block : List UInt8) :
    m.writeBlock a block = match blockRefusal? m.size a block.length with
      | some f => .error f
      | none => .ok (m.setBlock a.toNat block) := by
  by_cases hb : block = []
  · subst hb
    rfl
  · rw [writeBlock_eq m a hb, blockRefusal?_eq m a (List.length_pos_iff.mpr hb)]
    split <;> rfl

/-- The memory that a call leaves which is not refused. -/
def granted (m : Memory) : Access → Memory
  | .write a value => m.set a.toNat (UInt8.ofInt value)
  | .writeBlock a block => m.setBlock a.toNat block
  | .copy target source n => m.setBlock target.toNat (m.blockAt source n)
  | .resize n => zeros n.toNat
  | .clear => zeros m.size
  | .read _ | .readBlock _ _ => m

theorem perform_eq (m : Memory) (c : Access) :
    m.perform c = match c.refusal? m.size with
      | some f => (.error f, m)
      | none => (.ok (c.reads m.byteAt), m.granted c) := by
  cases c with
  | read a =>
    simp only [perform, Access.refusal?, byteRefusal?_eq, read_eq]
    split <;> rfl
  | write a value =>
    simp only [perform, Access.refusal?, byteRefusal?_eq, write_eq]
    split
    · split <;> rfl
    · rfl
  | readBlock a n =>
    simp only [perform, Access.refusal?, readBlock_answer]
    split <;> rfl
  | writeBlock a block =>
    simp only [perform, Access.refusal?, writeBlock_answer]
    split <;> rfl
  | copy target source n =>
    simp only [perform, Access.refusal?, copy, readBlock_answer]
    cases blockRefusal? m.size source n with
    | some f => rfl
    | none =>
      simp only [bind, Except.bind, writeBlock_answer, length_blockAt, Option.none_or]
      split <;> rfl
  | resize n =>
    simp only [perform, Access.refusal?, Memory.resize]
    split <;> rfl
  | clear => rfl

theorem fits_of_blockRefusal? {size n : Nat} {a : Int} (h : blockRefusal? size a n = none) :
    n = 0 ∨ 0 ≤ a ∧ a + n ≤ size := by
  unfold blockRefusal? at h
  split at h
  · assumption
  · split at h <;> cases h

theorem byteAt_setBlock_of_fits {a : Int} {block : List UInt8}
    (h : blockRefusal? m.size a block.length = none) (c : Nat) :
    (m.setBlock a.toNat block).byteAt c =
      if a ≤ c ∧ c < a + block.length then block.getD (c - a.toNat) 0 else m.byteAt c := by
  rcases fits_of_blockRefusal? h with hn | ⟨ha, hle⟩
  · rw [List.length_eq_zero_iff.mp hn, if_neg (by rw [List.length_nil]; omega)]
    rfl
  · rw [byteAt_setBlock m c (by omega)]
    by_cases hin : a ≤ c ∧ c < a + block.length
    · rw [if_pos (by omega), if_pos hin]
    · rw [if_neg (by omega), if_neg hin]

/-- A call that is not refused has put its bytes where it says, and left the others. -/
theorem byteAt_granted {call : Access} (h : call.refusal? m.size = none) (c : Nat) :
    (m.granted call).byteAt c = (call.puts? m.byteAt c).getD (m.byteAt c) := by
  cases call with
  | read a => rfl
  | readBlock a n => rfl
  | resize n => exact byteAt_zeros _ _
  | clear => exact byteAt_zeros _ _
  | write a value =>
    have hfits := (Option.or_eq_none_iff.mp h).1
    have hset : m.granted (.write a value) = m.setBlock a.toNat [UInt8.ofInt value] := rfl
    rw [hset, byteAt_setBlock_of_fits hfits]
    simp only [Access.puts?, List.length_singleton]
    by_cases hc : (c : Int) = a
    · have hk : c - a.toNat = 0 := by omega
      rw [if_pos (by omega), if_pos hc, hk]
      rfl
    · rw [if_neg (by omega), if_neg hc]
      rfl
  | writeBlock a block =>
    simp only [granted, Access.puts?, byteAt_setBlock_of_fits h]
    split <;> rfl
  | copy target source n =>
    obtain ⟨hsource, htarget⟩ := Option.or_eq_none_iff.mp h
    rw [granted, byteAt_setBlock_of_fits (by rw [length_blockAt]; exact htarget), length_blockAt]
    simp only [Access.puts?]
    by_cases hin : target ≤ c ∧ c < target + n
    · rw [if_pos hin, if_pos hin]
      -- There is a byte to copy, so neither block is empty and both lie in memory.
      have hs := fits_of_blockRefusal? hsource
      have ht := fits_of_blockRefusal? htarget
      have hplace : source.toNat + (c - target.toNat) = (source + (c - target)).toNat := by omega
      have hk : c - target.toNat < n := by omega
      simp [blockAt, hk, hplace]
    · rw [if_neg hin, if_neg hin]
      rfl

theorem size_granted (m : Memory) (call : Access) :
    (m.granted call).size = match call with
      | .resize n => n.toNat
      | _ => m.size := by
  cases call <;> simp [granted]

theorem afterCalls_cons (call : Access) (past : List Access) :
    afterCalls (call :: past) = match call.refusal? (afterCalls past).size with
      | some _ => afterCalls past
      | none => (afterCalls past).granted call := by
  rw [afterCalls, perform_eq]
  split <;> rfl

/-! ## All calls -/

theorem sizeAfter_cons (call : Access) (past : List Access) :
    sizeAfter (call :: past) = match call, call.refusal? (sizeAfter past) with
      | .resize n, none => n.toNat
      | _, _ => sizeAfter past := by
  cases call
  case resize n =>
    simp only [sizeAfter, Access.refusal?]
    split <;> rfl
  all_goals rfl

theorem size_afterCalls (past : List Access) : (afterCalls past).size = sizeAfter past := by
  induction past with
  | nil => rfl
  | cons call past ih =>
    rw [afterCalls_cons, sizeAfter_cons, ih]
    cases call.refusal? (sizeAfter past) with
    | some f => cases call <;> exact ih
    | none =>
      simp only [size_granted, ih]
      cases call <;> rfl

theorem byteAt_afterCalls (past : List Access) (a : Nat) :
    (afterCalls past).byteAt a = lastWritten past a := by
  induction past generalizing a with
  | nil => exact byteAt_zeros 0 a
  | cons call past ih =>
    have hbytes : (afterCalls past).byteAt = lastWritten past := funext ih
    rw [afterCalls_cons, lastWritten, size_afterCalls]
    cases hr : call.refusal? (sizeAfter past) with
    | some f => exact ih a
    | none =>
      simp only [byteAt_granted (m := afterCalls past) (size_afterCalls past ▸ hr), hbytes]
      cases call.puts? (lastWritten past) a <;> rfl

/-- Whatever calls are made to a memory that was never given a size: its size and its bytes are
those that its history tells, the next call is refused for the reason that this size gives and for
no other, a call that is not refused reads the bytes that were last written, and one that is
refused changes nothing. -/
theorem history_determines (past : List Access) (call : Access) :
    let m := afterCalls past
    m.cells.size = m.size ∧ (m.size : Int) = m.top + 1 ∧ m.size = sizeAfter past ∧
      (∀ a, m.byteAt a = lastWritten past a) ∧
      m.perform call = match call.refusal? (sizeAfter past) with
        | some f => (.error f, m)
        | none => (.ok (call.reads (lastWritten past)), afterCalls (call :: past)) := by
  intro m
  have hbytes : m.byteAt = lastWritten past := funext (byteAt_afterCalls past)
  have hsize : m.size = sizeAfter past := size_afterCalls past
  refine ⟨rfl, by unfold top; omega, hsize, byteAt_afterCalls past, ?_⟩
  rw [← hsize, ← hbytes, perform_eq]
  cases hr : call.refusal? m.size with
  | some f => rfl
  | none =>
    have hnext := afterCalls_cons call past
    rw [hr] at hnext
    rw [hnext]

/-- A copy onto itself, one address further on. -/
example : (afterCalls [.copy 1 0 3, .writeBlock 0 [1, 2, 3], .resize 5]).used = [1, 1, 2, 3] := by
  decide

end Chip8.Memory
