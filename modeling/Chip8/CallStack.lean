import Chip8.Capacity

/-!
The stack of return addresses: a row of slots and a pointer to the next free one. Popping leaves
the old entry in its slot, where only a later push can touch it.
-/

namespace Chip8

/-- Slots of which those below the pointer are in use. A requested size below zero gives none. -/
structure CallStack where
  size : Int
  slots : Array Int
  pointer : Nat
  slots_size : slots.size = size.toNat
  pointer_le : pointer ≤ slots.size

namespace CallStack

inductive Fault
  | overflow
  | underflow
deriving DecidableEq

def Fault.message : Fault → String
  | .overflow => "Stack overflow"
  | .underflow => "Stack underflow"

def ofSize (size : Int) : CallStack where
  size := size
  slots := Array.replicate size.toNat 0
  pointer := 0
  slots_size := by simp
  pointer_le := by simp

def slotBytes : Nat := 8

def allocate (room : Nat) (size : Int) : Except Capacity.Fault CallStack :=
  (Capacity.checkRow room size slotBytes).map fun _ => ofSize size

/-- The entries in use, the oldest first. -/
def items (s : CallStack) : List Int := s.slots.toList.take s.pointer

def push (s : CallStack) (item : Int) : Except Fault CallStack :=
  if h : s.pointer < s.slots.size then
    .ok { s with
      slots := s.slots.set s.pointer item h
      pointer := s.pointer + 1
      slots_size := by rw [Array.size_set, s.slots_size]
      pointer_le := by rw [Array.size_set]; omega }
  else .error .overflow

/-- The newest entry and the stack without it. -/
def pop (s : CallStack) : Except Fault (Int × CallStack) :=
  if h : 0 < s.pointer then
    have := s.pointer_le
    .ok (s.slots[s.pointer - 1], { s with pointer := s.pointer - 1, pointer_le := by omega })
  else .error .underflow

end CallStack

end Chip8
