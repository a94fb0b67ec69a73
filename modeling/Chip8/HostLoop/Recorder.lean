import Chip8.HostLoop.Run

/-!
A host that only takes notes: how often it was asked for input, and what it was asked to show. Its
keys are always the same ones, and it quits after a number of polls.
-/

namespace Chip8.HostLoop

structure Recorder where
  polls : Nat
  titles : Array String
  /-- The lit pixels written since the last refresh. -/
  lit : Nat
  /-- The number of lit pixels at each refresh. -/
  refreshes : Array Nat

namespace Recorder

def empty : Recorder := ⟨0, #[], 0, #[]⟩

def note (r : Recorder) : Request → Recorder
  | .title text => { r with titles := r.titles.push text }
  | .pixel w => if w.lit then { r with lit := r.lit + 1 } else r
  | .refresh => { r with lit := 0, refreshes := r.refreshes.push r.lit }
  | .beep => r

/-- The host that holds these keys down and quits once it was polled more often than that. -/
def host (held : Vector Bool 16) (quitAfter : Option Int) : Host Recorder where
  poll := fun _ r =>
    (⟨quitAfter.any fun n => n < (r.polls : Int) + 1, held⟩, { r with polls := r.polls + 1 })
  handle := fun _ request r => r.note request

end Recorder

end Chip8.HostLoop
