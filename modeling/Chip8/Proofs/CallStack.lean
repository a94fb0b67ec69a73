import Chip8.CallStack

/-! # The stack as the list of its entries in use

Slots above the pointer keep what was popped from them. Through `items` they cannot be seen: a push
appends one entry, a pop takes the last one away, and each fails at its own end of the row only. -/

namespace Chip8.CallStack

@[simp] theorem length_items (s : CallStack) : s.items.length = s.pointer := by
  have := s.pointer_le
  unfold items
  rw [List.length_take, Array.length_toList]
  omega

theorem length_lt_of_prefix {s : CallStack} {frame : List Int} {item : Int}
    (h : frame ++ [item] <+: s.items) : frame.length < s.pointer := by
  have hle := h.length_le
  rw [List.length_append, length_items, List.length_singleton] at hle
  exact hle

theorem push_eq_ok {s t : CallStack} {item : Int} (h : s.push item = .ok t) :
    t.size = s.size ∧ t.pointer = s.pointer + 1 ∧ t.items = s.items ++ [item] := by
  unfold push at h
  split at h
  · rename_i hlt
    cases h
    refine ⟨rfl, rfl, ?_⟩
    unfold items
    rw [Array.toList_set, List.take_succ_eq_append_getElem (by simpa using hlt),
      List.take_set_of_le (Nat.le_refl _), List.getElem_set_self]
  · cases h

theorem push_eq_error_iff {s : CallStack} {item : Int} {f : Fault} :
    s.push item = .error f ↔ f = .overflow ∧ s.size.toNat ≤ s.pointer := by
  unfold push
  rw [← s.slots_size]
  split
  · simp only [reduceCtorEq, false_iff]
    omega
  · simp only [Except.error.injEq]
    constructor
    · intro h; exact ⟨h.symm, by omega⟩
    · intro h; exact h.1.symm

theorem pop_eq_ok {s t : CallStack} {item : Int} (h : s.pop = .ok (item, t)) :
    t.size = s.size ∧ s.pointer = t.pointer + 1 ∧ s.items = t.items ++ [item] := by
  unfold pop at h
  split at h
  · rename_i hpos
    cases h
    have hle := s.pointer_le
    have hpred : s.pointer = s.pointer - 1 + 1 := by omega
    refine ⟨rfl, hpred, ?_⟩
    have htake := List.take_succ_eq_append_getElem (l := s.slots.toList) (i := s.pointer - 1)
      (by rw [Array.length_toList]; omega)
    rwa [← hpred, Array.getElem_toList] at htake
  · cases h

theorem pop_eq_error_iff {s : CallStack} {f : Fault} :
    s.pop = .error f ↔ f = .underflow ∧ s.pointer = 0 := by
  unfold pop
  split
  · simp only [reduceCtorEq, false_iff]
    omega
  · simp only [Except.error.injEq]
    constructor
    · intro h; exact ⟨h.symm, by omega⟩
    · intro h; exact h.1.symm

end Chip8.CallStack
