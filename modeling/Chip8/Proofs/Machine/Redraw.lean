import Chip8.Proofs.Machine.Step

/-! # The redraw flag

Nothing that a machine does depends on the flag: machines that differ in it alone stay so, and are
stopped by the same faults. A step that changes the picture leaves the flag up. -/

namespace Chip8

namespace Screen

/-- The screen with its flag up or down. -/
def withRedraw (s : Screen) (up : Bool) : Screen := { s with redraw := up }

theorem toggleAll_withRedraw (s : Screen) (up : Bool) (points : List (Int × Int)) :
    (s.withRedraw up).toggleAll points =
      ((s.toggleAll points).1, (s.toggleAll points).2.withRedraw up) := by
  induction points generalizing s with
  | nil => rfl
  | cons p rest ih =>
    have htoggle : (s.withRedraw up).toggle p.1 p.2 = (s.toggle p.1 p.2).withRedraw up := rfl
    simp only [toggleAll, htoggle, ih]
    rfl

theorem drawSprite_withRedraw (s : Screen) (up : Bool) (x y : Int) (rows : List UInt8) :
    (s.withRedraw up).drawSprite x y rows =
      (s.drawSprite x y rows).map fun drawn => (drawn.1, drawn.2.withRedraw up) := by
  have hfault : (s.withRedraw up).fault? = s.fault? := rfl
  unfold drawSprite
  rw [hfault]
  split
  · rfl
  · split
    · rfl
    · rw [toggleAll_withRedraw]
      rfl

end Screen

namespace Machine

variable {m : Machine}

def withRedraw (m : Machine) (up : Bool) : Machine :=
  { m with screen := m.screen.withRedraw up }

@[simp] theorem memory_withRedraw (m : Machine) (up : Bool) :
    (m.withRedraw up).memory = m.memory := rfl

@[simp] theorem stack_withRedraw (m : Machine) (up : Bool) :
    (m.withRedraw up).stack = m.stack := rfl

@[simp] theorem i_withRedraw (m : Machine) (up : Bool) : (m.withRedraw up).i = m.i := rfl

@[simp] theorem pc_withRedraw (m : Machine) (up : Bool) : (m.withRedraw up).pc = m.pc := rfl

@[simp] theorem reg_withRedraw (m : Machine) (up : Bool) (x : Int) :
    (m.withRedraw up).reg x = m.reg x := rfl

@[simp] theorem registersUpTo_withRedraw (m : Machine) (up : Bool) (x : Int) :
    (m.withRedraw up).registersUpTo x = m.registersUpTo x := rfl

@[simp] theorem keyDown?_withRedraw (m : Machine) (up : Bool) (x : Int) :
    (m.withRedraw up).keyDown? x = m.keyDown? x := rfl

@[simp] theorem firstKey?_withRedraw (m : Machine) (up : Bool) :
    (m.withRedraw up).firstKey? = m.firstKey? := rfl

/-- What becomes of a machine whatever its flag is. -/
def Outcome.withRedraw (out : Outcome) (up : Bool) : Outcome :=
  ⟨out.machine.withRedraw up, out.fault⟩

theorem drawSprite_withRedraw (m : Machine) (up : Bool) (x y n : Int) :
    ∃ after, (m.withRedraw up).drawSprite x y n = (m.drawSprite x y n).withRedraw after := by
  have hscreen : (m.withRedraw up).screen = m.screen.withRedraw up := rfl
  simp only [drawSprite, memory_withRedraw, i_withRedraw, reg_withRedraw, hscreen,
    Screen.drawSprite_withRedraw]
  cases m.memory.readBlock m.i n with
  | error f => exact ⟨up, rfl⟩
  | ok rows =>
    simp only []
    cases m.screen.drawSprite (m.reg x).toNat (m.reg y).toNat rows with
    | error f => exact ⟨up, rfl⟩
    | ok drawn => exact ⟨true, rfl⟩

/-- No instruction reads the flag. -/
theorem execute_withRedraw (m : Machine) (up : Bool) (inst : Instruction) :
    ∃ after, (m.withRedraw up).execute inst = (m.execute inst).withRedraw after := by
  cases inst
  case clear => exact ⟨true, rfl⟩
  case draw x y n => exact drawSprite_withRedraw m up x y n
  case readDelay x =>
    refine ⟨up, ?_⟩
    by_cases hdt : 0 ≤ m.dt ∧ m.dt < 256
    · have hexec : m.execute (.readDelay x) = _ := if_pos hdt
      rw [hexec]
      exact if_pos hdt
    · have hexec : m.execute (.readDelay x) = _ := if_neg hdt
      rw [hexec]
      exact if_neg hdt
  all_goals
    refine ⟨up, ?_⟩
    simp only [execute, skipOnKey, memory_withRedraw, stack_withRedraw, i_withRedraw,
      pc_withRedraw, reg_withRedraw, registersUpTo_withRedraw, keyDown?_withRedraw,
      firstKey?_withRedraw]
    repeat' split
    all_goals rfl

/-- Nor does any step, so the flag may be changed between steps without any consequence. -/
theorem step_withRedraw (hpc : 0 ≤ m.pc) (up : Bool) :
    ∃ after, (m.withRedraw up).step = m.step.withRedraw after := by
  rcases step_cases hpc with ⟨hh, hs⟩ | ⟨hh, hc, hs⟩ | ⟨inst, hh, hc, hs⟩
  · exact ⟨up, by rw [hs]; exact if_pos hh⟩
  · refine ⟨up, ?_⟩
    rw [hs, step_of_unknown (m := m.withRedraw up) hpc hh hc]
    rfl
  · have hflag : (m.withRedraw up).begun inst = (m.begun inst).withRedraw up := rfl
    rw [hs, step_of_current? (m := m.withRedraw up) hpc hh hc, hflag]
    exact execute_withRedraw (m.begun inst) up inst

/-- A step that changes the picture leaves the flag up. -/
theorem step_screen (hpc : 0 ≤ m.pc) :
    m.step.machine.screen = m.screen ∨ m.step.machine.screen.redraw = true := by
  rcases step_cases hpc with ⟨_, hs⟩ | ⟨_, _, hs⟩ | ⟨inst, _, _, hs⟩
  · rw [hs]
    exact Or.inl rfl
  · rw [hs]
    exact Or.inl rfl
  · rw [hs]
    exact (execute_screen_cases (m.begun inst) inst).imp_right And.left

end Machine

end Chip8
