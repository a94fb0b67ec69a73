import Chip8.Machine.Execute

/-!
Several steps in a row, up to the first fault.
-/

namespace Chip8.Machine

/-- Takes up to `n` steps and adds the number of those that were completed to `completed`. -/
def runFrom (completed : Nat) : Nat → Machine → Nat × Outcome
  | 0, m => (completed, done m)
  | n + 1, m =>
    let out := m.step
    match out.fault with
    | some _ => (completed, out)
    | none => runFrom (completed + 1) n out.machine

/-- Takes up to `n` steps; the number of completed ones and how the last one ended. -/
def run (n : Nat) (m : Machine) : Nat × Outcome := runFrom 0 n m

/-- The machines after the completed steps among the next `n`, and how the last one ended. -/
def trace : Nat → Machine → List Machine × Outcome
  | 0, m => ([], done m)
  | n + 1, m =>
    let out := m.step
    match out.fault with
    | some _ => ([], out)
    | none =>
      let (later, last) := trace n out.machine
      (out.machine :: later, last)

end Chip8.Machine
