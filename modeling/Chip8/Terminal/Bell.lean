import Chip8.Binary64
import Chip8.Terminal.Call

/-!
The bell of a text terminal. It can be rung but not held, so a sound that goes on rings it again
after a while.
-/

namespace Chip8.Terminal

structure Bell where
  /-- When the bell may be rung again. -/
  next : Binary64

namespace Bell

/-- The least time between two rings, in seconds. -/
def interval : Binary64 := .ofRat (1 / 5)

def silent : Bell := ⟨0⟩

def beep (b : Bell) (time : Binary64) : Bell × List Call :=
  if b.next.le time then (⟨time.add interval⟩, [.bell]) else (b, [])

end Bell

end Chip8.Terminal
