import Chip8.Keymap

/-!
Keys in a window, which reports when a key is pressed and when it is released.
-/

namespace Chip8.Window

inductive Event
  /-- The window was closed. -/
  | quit
  | keyDown (code : Int)
  | keyUp (code : Int)
  | other
deriving DecidableEq

structure Keyboard where
  keymap : Keymap
  held : Vector Bool 16

namespace Keyboard

/-- The code of the key that ends the program when it is released. -/
def escape : Int := 27

def open? (keymap : String) : Except Keymap.Fault Keyboard :=
  (Keymap.parse false keymap).map fun m => ⟨m, Vector.replicate 16 false⟩

def setHeld (k : Keyboard) (code : Int) (down : Bool) : Keyboard :=
  match k.keymap.key? code with
  | some key => { k with held := k.held.setIfInBounds key down }
  | none => k

/-- Takes one event and says whether it ends the program. -/
def handle (k : Keyboard) : Event → Bool × Keyboard
  | .quit => (true, k)
  | .keyDown code => (false, k.setHeld code true)
  | .keyUp code => if code = escape then (true, k) else (false, k.setHeld code false)
  | .other => (false, k)

/-- Takes all events of a batch, also those after one that ends the program. -/
def process (k : Keyboard) : List Event → Bool × Keyboard
  | [] => (false, k)
  | e :: rest =>
    let (quit, k) := k.handle e
    let (later, k) := k.process rest
    (quit || later, k)

end Keyboard

end Chip8.Window
