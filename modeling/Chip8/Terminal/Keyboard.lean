import Chip8.Binary64
import Chip8.Keymap

/-!
Keys in a text terminal. A terminal sends characters and does not say when a key is released, so a
key counts as held down for a fixed time after its character was seen. A reader puts the keys of
the characters into a queue, from which the loop takes them. The reader ends with a quit mark at
ESC or CTRL+C.
-/

namespace Chip8.Terminal

structure Keyboard where
  keymap : Keymap
  /-- The keys that were typed and not yet looked at, the oldest first; none is the quit mark. -/
  queue : List (Option (Fin 16))
  /-- Whether the reader waits with a quit mark until the queue has room. -/
  waiting : Bool
  /-- Until when each key counts as held down. -/
  deadlines : Vector Binary64 16
  /-- Whether the reader has been asked to end. -/
  stopping : Bool

namespace Keyboard

def capacity : Nat := 16

/-- How long a key counts as held down, in seconds. -/
def holdTime : Binary64 := .ofRat (1 / 5)

/-- The characters that end the program. -/
def quitCharacters : List Int := [27, 3]

def ofKeymap (keymap : Keymap) : Keyboard :=
  ⟨keymap, [], false, Vector.replicate 16 0, false⟩

def open? (keymap : String) : Except Keymap.Fault Keyboard :=
  (Keymap.parse true keymap).map ofKeymap

def hasRoom (k : Keyboard) : Bool := k.queue.length < capacity

/-- Lets a waiting quit mark into the queue once there is room. -/
def settle (k : Keyboard) : Keyboard :=
  if k.waiting && k.hasRoom then { k with queue := k.queue ++ [none], waiting := false } else k

/-- Offers a key to the queue, which drops it if it is full. -/
def offer (k : Keyboard) (key : Fin 16) : Keyboard :=
  if k.hasRoom then { k with queue := k.queue ++ [some key] } else k

/-- How the reader goes on after a character. -/
inductive Reader
  | reading
  | ended
  /-- A quit mark waits for room. -/
  | blocked
  | failed (fault : Keymap.Fault)
deriving DecidableEq

/-- The reader takes one character. A negative one is no character. -/
def readChar (k : Keyboard) (char : Int) : Keyboard × Reader :=
  if char < 0 then (k, .reading)
  else match Keymap.fold char with
    | .error f => (k, .failed f)
    | .ok code =>
      if code ∈ quitCharacters then
        let k := { k with waiting := true }.settle
        (k, if k.waiting then .blocked else .ended)
      else match k.keymap.key? code with
        | some key => (k.offer key, .reading)
        | none => (k, .reading)

/-- The reader takes characters until it ends or would have to wait for more. Between characters
it looks whether it has been asked to end. The second component is the characters left. -/
def readAll (k : Keyboard) : List Int → Keyboard × List Int × Reader
  | [] => (k, [], if k.stopping then .ended else .reading)
  | c :: rest =>
    if k.stopping then (k, c :: rest, .ended)
    else match k.readChar c with
      | (k, .reading) => k.readAll rest
      | (k, reader) => (k, rest, reader)

def take? (k : Keyboard) : Option (Option (Fin 16) × Keyboard) :=
  match k.queue with
  | [] => none
  | entry :: rest => some (entry, { k with queue := rest }.settle)

/-- Takes up to `n` entries, up to the quit mark, and sets the deadline of every key. -/
def drain (deadline : Binary64) : Nat → Keyboard → Bool × Keyboard
  | 0, k => (false, k)
  | n + 1, k =>
    match k.take? with
    | none => (false, k)
    | some (none, k) => (true, k)
    | some (some key, k) =>
      drain deadline n { k with deadlines := k.deadlines.setIfInBounds key deadline }

/-- Takes everything from the queue up to the quit mark and says whether that was reached. The time
is read once, when the first key is taken. -/
def process (k : Keyboard) (time : Binary64) : Bool × Keyboard :=
  drain (time.add holdTime) (k.queue.length + 1) k

def keyDown (k : Keyboard) (time : Binary64) (key : Fin 16) : Bool :=
  time.lt (k.deadlines.get key)

def close (k : Keyboard) : Keyboard := { k with stopping := true }

end Keyboard

end Chip8.Terminal
