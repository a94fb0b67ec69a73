import Chip8.Proofs.Machine.Invariant

/-! # The steps of a run

Between the steps of a run the host may act, and a step of a halted machine does nothing. `starts`
lists the machines that the steps of a run begin in, `taken` those of them that are not halted. A
statement about the steps taken so far and the machine that they lead to is thus proved by looking
at one step of a running machine. -/

namespace Chip8.Machine

variable {m : Machine}

/-- The machines in which the steps of a run begin, halted ones included. -/
def starts (m : Machine) : List Action → List Machine
  | [] => []
  | .step :: rest => m :: (m.act .step).starts rest
  | .setKeys keys :: rest => (m.act (.setKeys keys)).starts rest
  | .consumeRedraw :: rest => (m.act .consumeRedraw).starts rest

def taken (m : Machine) (actions : List Action) : List Machine :=
  (m.starts actions).filter fun s => !s.halted

theorem act_step (m : Machine) : m.act .step = m.step.machine := rfl

theorem act_of_halted (hh : m.halted = true) : m.act .step = m :=
  congrArg Outcome.machine (step_of_halted hh)

theorem taken_of_halted (hh : m.halted = true) (rest : List Action) :
    m.taken (.step :: rest) = m.taken rest := by
  simp [taken, starts, act_of_halted hh, hh]

theorem taken_of_running (hrun : m.halted = false) (rest : List Action) :
    m.taken (.step :: rest) = m :: (m.act .step).taken rest := by
  simp [taken, starts, hrun]

theorem after_of_taken_from {P : List Machine → Machine → Prop} (hm : Invariant m)
    (actions : List Action)
    (hstep : ∀ past, ∀ s ∈ m.taken actions, Invariant s → s.halted = false → P past s →
      P (past ++ [s]) s.step.machine)
    (hkeys : ∀ past s keys, P past s → P past (s.act (.setKeys keys)))
    (hshown : ∀ past s, P past s → P past (s.act .consumeRedraw))
    (past : List Machine) (hP : P past m) :
    P (past ++ m.taken actions) (m.after actions) := by
  induction actions generalizing m past with
  | nil => rwa [taken, starts, List.filter_nil, List.append_nil]
  | cons a rest ih =>
    cases a with
    | setKeys keys => exact ih (hm.act _) hstep past (hkeys past m keys hP)
    | consumeRedraw => exact ih (hm.act _) hstep past (hshown past m hP)
    | step =>
      cases hh : m.halted with
      | true =>
        rw [taken_of_halted hh] at hstep ⊢
        rw [after, List.foldl_cons, act_of_halted hh]
        exact ih hm hstep past hP
      | false =>
        rw [taken_of_running hh] at hstep ⊢
        rw [List.append_cons]
        refine ih (hm.act .step) ?_ (past ++ [m]) (hstep past m List.mem_cons_self hm hh hP)
        exact fun past s hs => hstep past s (List.mem_cons_of_mem m hs)

/-- What holds at the beginning, and is kept by the host and by every step that the run takes, holds
of all its steps and of the machine at its end. -/
theorem after_of_taken {P : List Machine → Machine → Prop} (hm : Invariant m)
    (actions : List Action)
    (hstep : ∀ past, ∀ s ∈ m.taken actions, Invariant s → s.halted = false → P past s →
      P (past ++ [s]) s.step.machine)
    (hkeys : ∀ past s keys, P past s → P past (s.act (.setKeys keys)))
    (hshown : ∀ past s, P past s → P past (s.act .consumeRedraw)) (hP : P [] m) :
    P (m.taken actions) (m.after actions) :=
  after_of_taken_from hm actions hstep hkeys hshown [] hP

end Chip8.Machine
