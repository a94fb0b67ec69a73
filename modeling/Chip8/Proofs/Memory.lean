import Chip8.Memory

/-! # What memory holds, address by address

`byteAt` is the view of a memory that the theorems speak of. A block is accepted exactly if it lies
in memory as a whole, and is then the list of its bytes. Bytes stored one after the other reach
those addresses that exist and no other; the first one that does not exist is to blame. -/

namespace Chip8.Memory

/-- The byte at an address, zero beyond the end. -/
def byteAt (m : Memory) (a : Nat) : UInt8 := m.cells.getD a 0

@[simp] theorem size_zeros (n : Nat) : (zeros n).size = n := Array.size_replicate

@[simp] theorem size_set (m : Memory) (a : Nat) (b : UInt8) : (m.set a b).size = m.size :=
  Array.size_setIfInBounds

@[simp] theorem size_setBlock (m : Memory) (a : Nat) (block : List UInt8) :
    (m.setBlock a block).size = m.size := by
  induction block generalizing m a with
  | nil => rfl
  | cons b rest ih => rw [setBlock, ih, size_set]

theorem byteAt_set (m : Memory) (a c : Nat) (b : UInt8) :
    (m.set a b).byteAt c = if c = a ∧ a < m.size then b else m.byteAt c := by
  unfold byteAt set size
  rw [Array.getD_eq_getD_getElem?, Array.getD_eq_getD_getElem?, Array.getElem?_setIfInBounds]
  by_cases hc : a = c
  · subst hc
    by_cases ha : a < m.cells.size <;> simp [ha]
  · simp [hc, Ne.symm hc]

@[simp] theorem byteAt_zeros (n a : Nat) : (zeros n).byteAt a = 0 := by
  unfold byteAt zeros
  rw [Array.getD_eq_getD_getElem?, Array.getElem?_replicate]
  split <;> rfl

theorem byteAt_of_size_le {m : Memory} {a : Nat} (h : m.size ≤ a) : m.byteAt a = 0 := by
  unfold size at h
  unfold byteAt
  rw [Array.getD_eq_getD_getElem?, Array.getElem?_eq_none h]
  rfl

/-- A block that lies in memory is found where it was put. -/
theorem byteAt_setBlock (m : Memory) {a : Nat} (c : Nat) {block : List UInt8}
    (h : a + block.length ≤ m.size) :
    (m.setBlock a block).byteAt c =
      if a ≤ c ∧ c < a + block.length then block.getD (c - a) 0 else m.byteAt c := by
  induction block generalizing m a with
  | nil =>
    rw [if_neg (by simp)]
    rfl
  | cons b rest ih =>
    rw [List.length_cons] at h ⊢
    rw [setBlock, ih (m.set a b) (by rw [size_set]; omega), byteAt_set]
    rcases Nat.lt_trichotomy c a with hlt | heq | hgt
    · rw [if_neg (by omega), if_neg (by omega), if_neg (by omega)]
    · rw [if_neg (by omega), if_pos (by omega), if_pos (by omega), heq, Nat.sub_self]
      rfl
    · have hk : c - a = c - (a + 1) + 1 := by omega
      rw [hk, List.getD_cons_succ]
      by_cases hend : c < a + (rest.length + 1)
      · rw [if_pos (by omega), if_pos (by omega)]
      · rw [if_neg (by omega), if_neg (by omega), if_neg (by omega)]

@[simp] theorem setBlock_nil (m : Memory) (a : Nat) : m.setBlock a [] = m := rfl

@[simp] theorem writeBlock_nil (m : Memory) (a : Int) : m.writeBlock a [] = .ok m := rfl

@[simp] theorem toList_zeros (n : Nat) : (zeros n).cells.toList = List.replicate n 0 :=
  Array.toList_replicate

/-- A block takes the place of as many bytes and leaves those around it. -/
theorem toList_setBlock {m : Memory} (front old back block : List UInt8)
    (hm : m.cells.toList = front ++ old ++ back) (hlen : old.length = block.length) :
    (m.setBlock front.length block).cells.toList = front ++ block ++ back := by
  induction block generalizing m front old with
  | nil =>
    rw [List.eq_nil_of_length_eq_zero hlen] at hm
    exact hm
  | cons b rest ih =>
    obtain ⟨c, old', rfl⟩ := List.exists_cons_of_length_eq_add_one hlen
    have hset : (m.set front.length b).cells.toList = (front ++ [b]) ++ old' ++ back := by
      simp [set, hm]
    have hrest := ih (front ++ [b]) old' hset (Nat.succ.inj hlen)
    rw [List.length_append, List.length_singleton] at hrest
    rw [setBlock, hrest]
    simp

/-! ## Blocks -/

/-- The address that is blamed for a block that does not lie in memory: the first one if it is
outside, else the last one. -/
def blamed (m : Memory) (a n : Int) : Int := if m.InRange a then a + n - 1 else a

theorem checkBlock_eq (m : Memory) (a : Int) {n : Int} (hn : 0 < n) :
    m.checkBlock a n =
      if 0 ≤ a ∧ a + n ≤ m.size then .ok () else .error (.outOfRange (m.blamed a n)) := by
  unfold checkBlock check blamed
  by_cases ha : m.InRange a
  · rw [if_pos ha, if_pos ha]
    by_cases hl : m.InRange (a + n - 1)
    · rw [if_pos hl, if_pos ⟨ha.1, by have := hl.2; omega⟩]
      rfl
    · rw [if_neg hl, if_neg (fun h => hl ⟨by omega, by omega⟩)]
      rfl
  · have hb : ¬ (0 ≤ a ∧ a + n ≤ m.size) := fun h => ha ⟨h.1, by omega⟩
    rw [if_neg ha, if_neg ha, if_neg hb]
    rfl

theorem readBlock_eq (m : Memory) (a : Int) {n : Int} (hn : 0 < n) :
    m.readBlock a n =
      if 0 ≤ a ∧ a + n ≤ m.size then .ok (m.slice a (a + n))
      else .error (.outOfRange (m.blamed a n)) := by
  unfold readBlock
  rw [if_pos hn, checkBlock_eq m a hn]
  split <;> rfl

theorem writeBlock_eq (m : Memory) (a : Int) {block : List UInt8} (hb : block ≠ []) :
    m.writeBlock a block =
      if 0 ≤ a ∧ a + block.length ≤ m.size then .ok (m.setBlock a.toNat block)
      else .error (.outOfRange (m.blamed a block.length)) := by
  have hn : (0 : Int) < block.length := by
    have := List.length_pos_iff.mpr hb
    omega
  unfold writeBlock
  rw [if_neg (by simpa using hb), checkBlock_eq m a hn]
  split <;> rfl

theorem writeBlock_of_le {m : Memory} {a : Nat} {block : List UInt8}
    (h : a + block.length ≤ m.size) : m.writeBlock a block = .ok (m.setBlock a block) := by
  by_cases hb : block = []
  · subst hb
    rfl
  · rw [writeBlock_eq m a hb, if_pos (by omega), Int.toNat_natCast]

theorem writeBlock_refused {m : Memory} {a : Int} {block : List UInt8} (hb : block ≠ [])
    (h : ¬ (0 ≤ a ∧ a + block.length ≤ m.size)) :
    ∃ address, m.writeBlock a block = .error (.outOfRange address) := by
  rw [writeBlock_eq m a hb, if_neg h]
  exact ⟨_, rfl⟩

theorem size_of_writeBlock {m m' : Memory} {a : Int} {block : List UInt8}
    (h : m.writeBlock a block = .ok m') : m'.size = m.size := by
  by_cases hb : block = []
  · subst hb
    cases h
    rfl
  · rw [writeBlock_eq m a hb] at h
    split at h
    · cases h
      exact size_setBlock m a.toNat block
    · cases h

theorem byteAt_of_writeBlock {m m' : Memory} {a : Int} {block : List UInt8} (ha : 0 ≤ a)
    (h : m.writeBlock a block = .ok m') {c : Nat} :
    m'.byteAt c =
      if a ≤ c ∧ c < a + block.length then block.getD (c - a.toNat) 0 else m.byteAt c := by
  by_cases hb : block = []
  · subst hb
    cases h
    rw [if_neg (by rw [List.length_nil]; omega)]
  · rw [writeBlock_eq m a hb] at h
    split at h
    · cases h
      rw [byteAt_setBlock m c (by omega)]
      by_cases hin : a ≤ c ∧ c < a + block.length
      · rw [if_pos hin, if_pos (by omega)]
      · rw [if_neg hin, if_neg (by omega)]
    · cases h

/-- A slice that lies in memory is the list of its bytes. -/
theorem slice_eq (m : Memory) {a : Int} {n : Nat} (ha : 0 ≤ a) (h : a + n ≤ m.size) :
    m.slice a (a + n) = (List.range n).map fun k => m.byteAt (a.toNat + k) := by
  have hs : sliceEnd m.size a = a.toNat := by
    unfold sliceEnd
    rw [if_neg (by omega)]
    omega
  have he : sliceEnd m.size (a + n) = a.toNat + n := by
    unfold sliceEnd
    rw [if_neg (by omega)]
    omega
  unfold slice
  rw [hs, he]
  apply List.ext_getElem
  · simp only [Array.length_toList, Array.size_extract, List.length_map, List.length_range]
    unfold size at h
    omega
  · intro k hk _
    have hk' : a.toNat + k < m.cells.size := by
      simp only [Array.length_toList, Array.size_extract] at hk
      omega
    simp [byteAt, Array.getD, hk']

theorem slice_self (m : Memory) (a : Int) : m.slice a a = [] := by
  simp [slice]

/-- The bytes from an address on. -/
def blockAt (m : Memory) (a : Int) (n : Nat) : List UInt8 :=
  (List.range n).map fun k => m.byteAt (a.toNat + k)

@[simp] theorem length_blockAt (m : Memory) (a : Int) (n : Nat) : (m.blockAt a n).length = n := by
  simp [blockAt]

/-- A block that lies in memory can be read, and so can an empty one at any address. -/
theorem readBlock_of_fits {m : Memory} {a : Int} {n : Nat} (h : n = 0 ∨ 0 ≤ a ∧ a + n ≤ m.size) :
    m.readBlock a n = .ok (m.blockAt a n) := by
  by_cases hn : n = 0
  · subst hn
    simp [readBlock, blockAt, slice_self]
  · have hin := h.resolve_left hn
    rw [readBlock_eq m a (by omega), if_pos hin, slice_eq m hin.1 hin.2]
    rfl

theorem eq_blockAt_of_readBlock {m : Memory} {a : Int} {n : Nat} {bytes : List UInt8}
    (h : m.readBlock a n = .ok bytes) : bytes = m.blockAt a n := by
  by_cases hfits : n = 0 ∨ 0 ≤ a ∧ a + n ≤ m.size
  · rw [readBlock_of_fits hfits] at h
    exact (Except.ok.inj h).symm
  · rw [not_or] at hfits
    rw [readBlock_eq m a (by omega), if_neg hfits.2] at h
    cases h

theorem length_of_readBlock {m : Memory} {a n : Int} {bytes : List UInt8} (hn : 0 < n)
    (h : m.readBlock a n = .ok bytes) : bytes.length = n.toNat := by
  rw [readBlock_eq m a hn] at h
  split at h
  · rename_i hin
    obtain ⟨k, rfl⟩ := Int.eq_ofNat_of_zero_le (Int.le_of_lt hn)
    cases h
    rw [slice_eq m hin.1 hin.2, List.length_map, List.length_range, Int.toNat_natCast]
  · cases h

/-- A memory is given by its size and its bytes. -/
theorem eq_of_byteAt {m m' : Memory} (hsize : m.size = m'.size)
    (h : ∀ a, m.byteAt a = m'.byteAt a) : m = m' := by
  have hcells : m.cells = m'.cells := by
    apply Array.ext hsize
    intro a hlt hlt'
    have ha := h a
    simpa [byteAt, Array.getD, hlt, hlt'] using ha
  cases m
  cases m'
  cases hcells
  rfl

theorem blockAt_congr {m m' : Memory} {a : Int} {n : Nat}
    (h : ∀ k < n, m.byteAt (a.toNat + k) = m'.byteAt (a.toNat + k)) :
    m.blockAt a n = m'.blockAt a n := by
  apply List.map_congr_left
  intro k hk
  exact h k (List.mem_range.mp hk)

/-- A block is read back from where it was put. -/
theorem blockAt_setBlock {m : Memory} {a : Int} {block : List UInt8}
    (h : a.toNat + block.length ≤ m.size) :
    (m.setBlock a.toNat block).blockAt a block.length = block := by
  apply List.ext_getElem
  · exact length_blockAt _ _ _
  · intro k hk hk'
    simp [blockAt, byteAt_setBlock m _ h, hk']

/-- The bytes that are there already change nothing. -/
theorem setBlock_blockAt {m : Memory} {a : Int} {n : Nat} (h : a.toNat + n ≤ m.size) :
    m.setBlock a.toNat (m.blockAt a n) = m := by
  apply eq_of_byteAt (size_setBlock _ _ _)
  intro c
  rw [byteAt_setBlock m c (by rw [length_blockAt]; exact h), length_blockAt]
  split
  · rename_i hin
    have hk : c - a.toNat < n := by omega
    have hc : a.toNat + (c - a.toNat) = c := by omega
    simp [blockAt, hk, hc]
  · rfl

/-! ## Bytes one after the other -/

@[simp] theorem size_storeEach (m : Memory) (a : Int) (bytes : List UInt8) :
    (m.storeEach a bytes).1.size = m.size := by
  induction bytes generalizing m a with
  | nil => rfl
  | cons b rest ih =>
    unfold storeEach store
    by_cases ha : m.InRange a
    · rw [if_pos ha]
      exact (ih _ _).trans (size_set m a.toNat b)
    · rw [if_neg ha]

/-- Storing stops at the first address beyond the end. -/
theorem storeEach_fault (m : Memory) {a : Int} (ha : 0 ≤ a) (bytes : List UInt8) :
    (m.storeEach a bytes).2 =
      if bytes = [] ∨ a + bytes.length ≤ m.size then none
      else some (.outOfRange (max a m.size)) := by
  induction bytes generalizing m a with
  | nil => rfl
  | cons b rest ih =>
    unfold storeEach store
    by_cases hin : m.InRange a
    · have hlt := hin.2
      rw [if_pos hin]
      simp only [ih (m.set a.toNat b) (by omega : 0 ≤ a + 1), size_set, List.length_cons,
        reduceCtorEq, false_or]
      by_cases hend : a + 1 + rest.length ≤ m.size
      · rw [if_pos (Or.inr hend), if_pos (by omega)]
      · have hrest : ¬ (rest = [] ∨ a + 1 + rest.length ≤ m.size) := by
          rintro (rfl | h)
          · simp at hend; omega
          · exact hend h
        rw [if_neg hrest, if_neg (by omega), Int.max_eq_right (by omega),
          Int.max_eq_right (by omega)]
    · have hge : (m.size : Int) ≤ a := by unfold InRange at hin; omega
      rw [if_neg hin, if_neg (by simp; omega), Int.max_eq_left hge]

/-- Exactly those bytes are stored whose addresses exist. -/
theorem byteAt_storeEach (m : Memory) {a : Int} (ha : 0 ≤ a) (bytes : List UInt8) {c : Nat}
    (hc : c < m.size) :
    (m.storeEach a bytes).1.byteAt c =
      if a ≤ c ∧ c < a + bytes.length then bytes.getD (c - a.toNat) 0 else m.byteAt c := by
  induction bytes generalizing m a with
  | nil =>
    rw [if_neg (by rw [List.length_nil]; omega)]
    rfl
  | cons b rest ih =>
    unfold storeEach store
    by_cases hin : m.InRange a
    · rw [if_pos hin]
      simp only [ih (m.set a.toNat b) (by omega : 0 ≤ a + 1) (by simpa using hc), byteAt_set]
      rcases Int.lt_trichotomy c a with hlt | heq | hgt
      · rw [if_neg (by omega), if_neg (by omega), if_neg (by omega)]
      · rw [if_neg (by omega), if_pos (by omega), if_pos (by simp; omega)]
        simp [← heq]
      · have hk : c - a.toNat = c - (a + 1).toNat + 1 := by omega
        rw [hk, List.getD_cons_succ]
        by_cases hend : (c : Int) < a + 1 + rest.length
        · rw [if_pos (by omega), if_pos (by simp; omega)]
        · rw [if_neg (by omega), if_neg (by omega), if_neg (by simp; omega)]
    · rw [if_neg hin]
      unfold InRange at hin
      rw [if_neg (by omega)]

end Chip8.Memory
