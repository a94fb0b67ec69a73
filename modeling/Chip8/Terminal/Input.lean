import Chip8.Terminal.Keyboard

/-!
A keyboard while a program runs. Its reader goes on beside the loop, so characters come in at any
time, also between two looks of the loop at the queue. They are given in turns: before each look the
reader takes the characters of the next turn. A reader that has ended or failed takes none, and the
loop is not told. A quit mark that waits for room is in the queue as soon as there is some; if it
gets in later, that is as if its character came later, since the reader takes none after it.
-/

namespace Chip8.Terminal

structure Input where
  keyboard : Keyboard
  reader : Keyboard.Reader

namespace Input

/-- What the clock shows while the loop looks for input. -/
structure Times where
  /-- When it takes the first key from the queue. -/
  taken : Binary64
  /-- When it asks whether a key counts as held down. -/
  asked : Vector Binary64 16

/-- A clock that stands still. -/
def Times.still (t : Binary64) : Times := ⟨t, Vector.replicate 16 t⟩

def ofKeyboard (k : Keyboard) : Input := ⟨k, .reading⟩

def hear (i : Input) (chars : List Int) : Input :=
  match i.reader with
  | .reading =>
    let (k, _, reader) := i.keyboard.readAll chars
    ⟨k, reader⟩
  | _ => i

/-- Takes entries from the queue until it is found empty or a quit mark is taken, and says whether
that was one. The last component is the turns that are left. -/
def visit (time : Binary64) : List (List Int) → Input → Bool × Input × List (List Int)
  | [], i =>
    let (quit, k) := i.keyboard.process time
    (quit, { i with keyboard := k }, [])
  | chars :: turns, i =>
    let i := i.hear chars
    match i.keyboard.take? with
    | none => (false, i, turns)
    | some (none, k) => (true, { i with keyboard := k }, turns)
    | some (some key, k) =>
      let deadlines := k.deadlines.setIfInBounds key (time.add Keyboard.holdTime)
      visit time turns { i with keyboard := { k with deadlines := deadlines } }

def close (i : Input) : Input := { i with keyboard := i.keyboard.close }

end Input

end Chip8.Terminal
