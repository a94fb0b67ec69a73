import Chip8.Capacity
import Chip8.Slice
import Chip8.Text.Hex

/-!
Byte-addressed memory. Every access to bytes is checked against the size, and an access that is
refused changes nothing. Addresses are integers: a program may compute any.
-/

namespace Chip8

/-- Bytes at the addresses from zero. -/
structure Memory where
  cells : Array UInt8

namespace Memory

inductive Fault
  | outOfRange (address : Int)
  | notByte (value : Int)
  | negativeSize (size : Int)
  | capacity (fault : Capacity.Fault)
deriving DecidableEq

def Fault.message : Fault → String
  | .outOfRange address => "Memory access out of range at address 0x" ++ Text.hex 4 address
  | .notByte value => "Not a byte: " ++ toString value
  | .negativeSize size => "Not a size: " ++ toString size
  | .capacity f => f.message

def size (m : Memory) : Nat := m.cells.size

/-- The last address, minus one for an empty memory. -/
def top (m : Memory) : Int := m.size - 1

def zeros (n : Nat) : Memory := ⟨Array.replicate n 0⟩

def empty : Memory := zeros 0

def InRange (m : Memory) (a : Int) : Prop := 0 ≤ a ∧ a < m.size

instance (m : Memory) (a : Int) : Decidable (m.InRange a) := inferInstanceAs (Decidable (_ ∧ _))

def check (m : Memory) (a : Int) : Except Fault Unit :=
  if m.InRange a then .ok () else .error (.outOfRange a)

/-- Refuses a block of `n` bytes that has its first or, failing that, its last byte outside. -/
def checkBlock (m : Memory) (a : Int) (n : Int) : Except Fault Unit := do
  m.check a
  m.check (a + n - 1)

def read (m : Memory) (a : Int) : Except Fault UInt8 :=
  if h : m.InRange a then
    have : a.toNat < m.cells.size := by unfold InRange size at h; omega
    .ok m.cells[a.toNat]
  else .error (.outOfRange a)

/-- The bytes between two signed positions. -/
def slice (m : Memory) (start stop : Int) : List UInt8 :=
  (m.cells.extract (sliceEnd m.size start) (sliceEnd m.size stop)).toList

/-- The `n` bytes from `a` on. For `n ≤ 0` nothing is checked and the slice between `a` and `a + n`
is read, whatever it is. -/
def readBlock (m : Memory) (a n : Int) : Except Fault (List UInt8) :=
  if 0 < n then (m.checkBlock a n).map fun _ => m.slice a (a + n)
  else .ok (m.slice a (a + n))

/-- Puts a byte at an address, if there is one. -/
def set (m : Memory) (a : Nat) (b : UInt8) : Memory := ⟨m.cells.setIfInBounds a b⟩

def setBlock (m : Memory) (a : Nat) : List UInt8 → Memory
  | [] => m
  | b :: rest => (m.set a b).setBlock (a + 1) rest

def store (m : Memory) (a : Int) (b : UInt8) : Except Fault Memory :=
  if m.InRange a then .ok (m.set a.toNat b) else .error (.outOfRange a)

/-- Stores an integer as a byte; the address is judged before the value. -/
def write (m : Memory) (a value : Int) : Except Fault Memory := do
  m.check a
  if 0 ≤ value ∧ value < 256 then m.store a (UInt8.ofInt value) else .error (.notByte value)

/-- Stores a block as a whole or not at all. -/
def writeBlock (m : Memory) (a : Int) (block : List UInt8) : Except Fault Memory :=
  if block.isEmpty then .ok m
  else (m.checkBlock a block.length).map fun _ => m.setBlock a.toNat block

/-- Stores bytes one after the other; those before the first refused one stay stored. -/
def storeEach (m : Memory) (a : Int) : List UInt8 → Memory × Option Fault
  | [] => (m, none)
  | b :: rest =>
    match m.store a b with
    | .ok m => m.storeEach (a + 1) rest
    | .error f => (m, some f)

def copy (m : Memory) (target source n : Int) : Except Fault Memory := do
  m.writeBlock target (← m.readBlock source n)

def resize (n : Int) : Except Fault Memory :=
  if n < 0 then .error (.negativeSize n) else .ok (zeros n.toNat)

/-- Zero bytes of a new size, if the host can hold them. -/
def allocate (room : Nat) (n : Int) : Except Fault Memory := do
  (Capacity.checkRow room n 1).mapError .capacity
  resize n

/-- All bytes up to the last one that is not zero. -/
def used (m : Memory) : List UInt8 := (m.cells.toList.reverse.dropWhile (· == 0)).reverse

/-- The bytes that differ from those of an earlier memory, with their addresses. -/
def changes (m earlier : Memory) : List (Nat × UInt8) :=
  ((List.range m.size).map fun a => (a, m.cells.getD a 0)).filter fun (a, b) =>
    earlier.cells.getD a 0 != b

/-- Zero bytes of the same size. -/
def clear (m : Memory) : Memory := zeros m.size

end Memory

end Chip8
