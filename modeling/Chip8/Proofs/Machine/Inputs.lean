import Chip8.Proofs.Machine.Redraw
import Chip8.Proofs.Machine.Run
import Mathlib.Algebra.GroupWithZero.Nat

/-! # What can be learnt of the keys and the random numbers

Two machines are `Alike` if they differ at most in the keys, the redraw flag, the random numbers and
what they have sounded and printed before. Four instructions read an input. As long as none of them
is executed, alike machines do the same at every step, as far as the outside can notice, whatever
the hosts of the two do in between. -/

namespace Chip8

/-- The instructions that ask for a key or for a random number. -/
def Instruction.ReadsInput : Instruction → Prop
  | .skipPressed _ | .skipReleased _ | .waitKey _ | .random _ _ => True
  | _ => False

namespace Machine

/-- What a machine has got from the outside and has given to it. -/
structure Outside where
  keys : Vector Bool 16
  random : Nat → Int
  draws : Nat
  beeps : Nat
  printed : Array String

def withOutside (m : Machine) (o : Outside) : Machine :=
  { m with
    keys := o.keys
    random := o.random
    draws := o.draws
    beeps := o.beeps
    printed := o.printed }

/-- The same machine, but for the outside and the redraw flag. -/
def Alike (m m' : Machine) : Prop := ∃ o up, m' = (m.withOutside o).withRedraw up

/-- What the outside notices of a step. -/
structure Notice where
  fault : Option Fault
  beeps : Nat
  texts : List String

def noticed (m : Machine) : Notice where
  fault := m.step.fault
  beeps := m.step.machine.beeps - m.beeps
  texts := m.step.machine.printedSince m

variable {m m' m'' : Machine} {inst : Instruction}

theorem Alike.of_outside (m : Machine) (o : Outside) (up : Bool) :
    Alike m ((m.withOutside o).withRedraw up) := ⟨o, up, rfl⟩

theorem Alike.refl (m : Machine) : Alike m m :=
  .of_outside m ⟨m.keys, m.random, m.draws, m.beeps, m.printed⟩ m.screen.redraw

theorem Alike.symm (h : Alike m m') : Alike m' m := by
  obtain ⟨o, up, rfl⟩ := h
  exact ⟨⟨m.keys, m.random, m.draws, m.beeps, m.printed⟩, m.screen.redraw, rfl⟩

theorem Alike.trans (h : Alike m m') (h' : Alike m' m'') : Alike m m'' := by
  obtain ⟨_, _, rfl⟩ := h
  obtain ⟨o, up, rfl⟩ := h'
  exact ⟨o, up, rfl⟩

/-! ## One instruction -/

@[simp] theorem memory_withOutside (m : Machine) (o : Outside) :
    (m.withOutside o).memory = m.memory := rfl

@[simp] theorem stack_withOutside (m : Machine) (o : Outside) :
    (m.withOutside o).stack = m.stack := rfl

@[simp] theorem screen_withOutside (m : Machine) (o : Outside) :
    (m.withOutside o).screen = m.screen := rfl

@[simp] theorem i_withOutside (m : Machine) (o : Outside) : (m.withOutside o).i = m.i := rfl

@[simp] theorem pc_withOutside (m : Machine) (o : Outside) : (m.withOutside o).pc = m.pc := rfl

@[simp] theorem reg_withOutside (m : Machine) (o : Outside) (x : Int) :
    (m.withOutside o).reg x = m.reg x := rfl

@[simp] theorem registersUpTo_withOutside (m : Machine) (o : Outside) (x : Int) :
    (m.withOutside o).registersUpTo x = m.registersUpTo x := rfl

def Outcome.withOutside (out : Outcome) (o : Outside) : Outcome :=
  ⟨out.machine.withOutside o, out.fault⟩

/-- A key that does not exist is refused without a look at the keys. -/
theorem skipOnKey_withOutside (o : Outside) {x : Int} {pressed : Bool}
    (hf : (m.skipOnKey x pressed).fault ≠ none) :
    (m.withOutside o).skipOnKey x pressed = (m.skipOnKey x pressed).withOutside o := by
  have hmissing : 15 < (m.reg x).toNat := by
    rw [fault_skipOnKey] at hf
    split at hf
    · assumption
    · exact absurd rfl hf
  have hnone : ∀ keys : Vector Bool 16, keys[(m.reg x).toNat]? = none := by
    intro keys
    exact Vector.getElem?_eq_none_iff.mpr hmissing
  simp [skipOnKey, keyDown?, hnone, stopped, Outcome.withOutside]

theorem execute_withOutside (o : Outside)
    (hask : inst.ReadsInput → (m.execute inst).fault ≠ none) :
    (m.withOutside o).execute inst = (m.execute inst).withOutside o := by
  cases inst
  case skipPressed x => exact skipOnKey_withOutside o (hask trivial)
  case skipReleased x => exact skipOnKey_withOutside o (hask trivial)
  case random x kk => exact absurd rfl (hask trivial)
  case waitKey x =>
    refine absurd ?_ (hask trivial)
    simp only [execute]
    split <;> rfl
  case readDelay x =>
    -- Both sides test the same timer, but not in the same words, and `split` would split twice.
    by_cases hdt : 0 ≤ m.dt ∧ m.dt < 256
    · have hexec : m.execute (.readDelay x) = _ := if_pos hdt
      rw [hexec]
      exact if_pos hdt
    · have hexec : m.execute (.readDelay x) = _ := if_neg hdt
      rw [hexec]
      exact if_neg hdt
  all_goals
    simp only [execute, drawSprite, memory_withOutside, stack_withOutside, screen_withOutside,
      i_withOutside, pc_withOutside, reg_withOutside, registersUpTo_withOutside]
    repeat' split
    all_goals rfl

theorem Alike.execute (h : Alike m m')
    (hask : inst.ReadsInput → (m.execute inst).fault ≠ none) :
    Alike (m.execute inst).machine (m'.execute inst).machine ∧
      (m.execute inst).fault = (m'.execute inst).fault := by
  obtain ⟨o, up, rfl⟩ := h
  obtain ⟨after, hs⟩ := execute_withRedraw (m.withOutside o) up inst
  rw [hs, execute_withOutside o hask]
  exact ⟨.of_outside _ o after, rfl⟩

/-! ## One step -/

/-- The next step executes an instruction that reads an input. -/
def Asks (m : Machine) : Prop :=
  m.halted = false ∧ m.step.fault = none ∧ ∃ inst, m.current? = some inst ∧ inst.ReadsInput

theorem Alike.invariant (h : Alike m m') (hm : Invariant m) : Invariant m' := by
  obtain ⟨o, up, rfl⟩ := h
  exact { hm with }

theorem Alike.setKeys (m : Machine) (keys : Vector Bool 16) :
    Alike m (m.act (.setKeys keys)) :=
  .of_outside m ⟨keys, m.random, m.draws, m.beeps, m.printed⟩ m.screen.redraw

theorem Alike.consumeRedraw (m : Machine) : Alike m (m.act .consumeRedraw) :=
  .of_outside m ⟨m.keys, m.random, m.draws, m.beeps, m.printed⟩ false

theorem Alike.begun (h : Alike m m') (inst : Instruction) :
    Alike (m.begun inst) (m'.begun inst) := by
  obtain ⟨o, up, rfl⟩ := h
  let other := ((m.withOutside o).withRedraw up).begun inst
  exact ⟨⟨o.keys, o.random, o.draws, other.beeps, other.printed⟩, up, rfl⟩

theorem Alike.reported (h : Alike m m') : Alike m.reported m'.reported := by
  obtain ⟨o, up, rfl⟩ := h
  let other := ((m.withOutside o).withRedraw up).reported
  exact ⟨⟨o.keys, o.random, o.draws, other.beeps, other.printed⟩, up, rfl⟩

theorem Alike.step (h : Alike m m') (hm : Invariant m) (hask : ¬ m.Asks) :
    Alike m.step.machine m'.step.machine ∧ m.step.fault = m'.step.fault := by
  have hpc' := (h.invariant hm).pc.1
  have hhalted : m'.halted = m.halted := by
    obtain ⟨o, up, rfl⟩ := h
    rfl
  have hcurrent : m'.current? = m.current? := by
    obtain ⟨o, up, rfl⟩ := h
    rfl
  rcases step_cases hm.pc.1 with ⟨hh, hs⟩ | ⟨hh, hc, hs⟩ | ⟨inst, hh, hc, hs⟩
  · rw [hs, step_of_halted (hhalted.trans hh)]
    exact ⟨h, rfl⟩
  · rw [hs, step_of_unknown hpc' (hhalted.trans hh) (hcurrent.trans hc)]
    exact ⟨h.reported, rfl⟩
  · rw [hs, step_of_current? hpc' (hhalted.trans hh) (hcurrent.trans hc)]
    apply (h.begun inst).execute
    intro hreads hf
    exact hask ⟨hh, hs ▸ hf, inst, hc, hreads⟩

/-- The beeps and texts of a step are settled before its instruction is executed. -/
theorem noticed_eq (hm : Invariant m) :
    m.noticed = ⟨m.step.fault, if m.halted then 0 else if 0 < m.st then 1 else 0, m.texts⟩ := by
  have hbeeps : m.step.machine.beeps - m.beeps =
      if m.halted then 0 else if 0 < m.st then 1 else 0 := by
    cases hh : m.halted with
    | true => rw [step_of_halted hh]; exact Nat.sub_self _
    | false => rw [beeps_of_running hm.pc.1 hh]; exact Nat.add_sub_cancel_left _ _
  rw [noticed, hbeeps, printedSince_step hm.pc.1]

theorem noticed_alike (h : Alike m m') (hm : Invariant m) (hask : ¬ m.Asks) :
    m.noticed = m'.noticed := by
  rw [noticed_eq hm, noticed_eq (h.invariant hm), (h.step hm hask).2]
  obtain ⟨o, up, rfl⟩ := h
  rfl

/-! ## Two runs -/

/-- What the host does before the first step of a run leaves the machine alike. -/
theorem starts_cases (m : Machine) (actions : List Action) :
    (m.starts actions = [] ∧ Alike m (m.after actions)) ∨
      ∃ s rest, Alike m s ∧ m.starts actions = s :: (s.act .step).starts rest ∧
        m.after actions = (s.act .step).after rest := by
  induction actions generalizing m with
  | nil => exact Or.inl ⟨rfl, .refl m⟩
  | cons a rest ih =>
    cases a with
    | step => exact Or.inr ⟨m, rest, .refl m, rfl, rfl⟩
    | setKeys keys =>
      have hm := Alike.setKeys m keys
      rcases ih (m.act (.setKeys keys)) with ⟨hnil, hafter⟩ | ⟨s, rest', hs, h⟩
      · exact Or.inl ⟨hnil, hm.trans hafter⟩
      · exact Or.inr ⟨s, rest', hm.trans hs, h⟩
    | consumeRedraw =>
      have hm := Alike.consumeRedraw m
      rcases ih (m.act .consumeRedraw) with ⟨hnil, hafter⟩ | ⟨s, rest', hs, h⟩
      · exact Or.inl ⟨hnil, hm.trans hafter⟩
      · exact Or.inr ⟨s, rest', hm.trans hs, h⟩

theorem printed_after (hm : Invariant m) (actions : List Action) :
    (m.after actions).printed =
      m.printed ++ (((m.starts actions).map noticed).flatMap Notice.texts).toArray := by
  induction actions generalizing m with
  | nil => exact (Array.append_empty).symm
  | cons a rest ih =>
    cases a with
    | step =>
      have htexts : m.noticed.texts = m.texts := printedSince_step hm.pc.1
      have hrest := ih (hm.act .step)
      rw [act_step, printed_step hm.pc.1, ← htexts] at hrest
      simpa [after, starts, act_step] using hrest
    | setKeys keys => exact ih (hm.act _)
    | consumeRedraw => exact ih (hm.act _)

theorem beeps_after_noticed (hm : Invariant m) (actions : List Action) :
    (m.after actions).beeps =
      m.beeps + (((m.starts actions).map noticed).map Notice.beeps).sum := by
  induction actions generalizing m with
  | nil => rfl
  | cons a rest ih =>
    cases a with
    | step =>
      have hbeeps : m.beeps + m.noticed.beeps = m.step.machine.beeps :=
        Nat.add_sub_cancel' (beeps_step hm.pc.1)
      have hrest := ih (hm.act .step)
      rw [act_step, ← hbeeps, Nat.add_assoc] at hrest
      exact hrest
    | setKeys keys => exact ih (hm.act _)
    | consumeRedraw => exact ih (hm.act _)

theorem after_alike (h : Alike m m') (hm : Invariant m) (actions actions' : List Action)
    (hlen : (m.starts actions).length = (m'.starts actions').length)
    (hask : ∀ s ∈ m.starts actions, ¬ s.Asks) :
    (m.starts actions).map noticed = (m'.starts actions').map noticed ∧
      Alike (m.after actions) (m'.after actions') := by
  -- The hosts act at different places, so the induction is on the steps, not on the actions.
  generalize hn : (m.starts actions).length = n at hlen
  induction n generalizing m m' actions actions' with
  | zero =>
    rcases starts_cases m actions with ⟨hnil, hafter⟩ | ⟨s, rest, _, hs, _⟩
    · rcases starts_cases m' actions' with ⟨hnil', hafter'⟩ | ⟨s', rest', _, hs', _⟩
      · rw [hnil, hnil']
        exact ⟨rfl, hafter.symm.trans (h.trans hafter')⟩
      · rw [hs'] at hlen
        cases hlen
    · rw [hs] at hn
      cases hn
  | succ n ih =>
    rcases starts_cases m actions with ⟨hnil, _⟩ | ⟨s, rest, hms, hs, ha⟩
    · rw [hnil] at hn
      cases hn
    · rcases starts_cases m' actions' with ⟨hnil', _⟩ | ⟨s', rest', hms', hs', ha'⟩
      · rw [hnil'] at hlen
        cases hlen
      · have halike : Alike s s' := hms.symm.trans (h.trans hms')
        have hinv : Invariant s := hms.invariant hm
        rw [hs] at hask hn ⊢
        rw [hs'] at hlen ⊢
        have hfirst : ¬ s.Asks := hask s List.mem_cons_self
        obtain ⟨hrest, hend⟩ := ih (halike.step hinv hfirst).1 (hinv.act .step) rest rest'
          (fun t ht => hask t (List.mem_cons_of_mem s ht)) (Nat.succ.inj hn) (Nat.succ.inj hlen)
        rw [ha, ha', List.map_cons, List.map_cons, noticed_alike halike hinv hfirst]
        exact ⟨congrArg _ hrest, hend⟩

/-- Whatever the keys are and whatever random numbers are to come, and whatever the hosts do between
the steps: as long as no step of one run reads an input, every step of the other run does the same
as seen from the outside, and the machines stay alike. -/
theorem Reachable.inputs_unread (h : Reachable m) (halike : Alike m m')
    (actions actions' : List Action)
    (hlen : (m.starts actions).length = (m'.starts actions').length)
    (hask : ∀ s ∈ m.starts actions, ¬ s.Asks) :
    (m.starts actions).map noticed = (m'.starts actions').map noticed ∧
      (m.after actions).printedSince m = (m'.after actions').printedSince m' ∧
      (m.after actions).beeps - m.beeps = (m'.after actions').beeps - m'.beeps ∧
      Alike (m.after actions) (m'.after actions') := by
  have hm := h.invariant
  have hm' := halike.invariant hm
  obtain ⟨hnoticed, hend⟩ := after_alike halike hm actions actions' hlen hask
  refine ⟨hnoticed, ?_, ?_, hend⟩
  · rw [printedSince_of_append (printed_after hm actions),
      printedSince_of_append (printed_after hm' actions'), hnoticed]
  · rw [beeps_after_noticed hm, beeps_after_noticed hm', hnoticed, Nat.add_sub_cancel_left,
      Nat.add_sub_cancel_left]

theorem alike_initial (memory : Memory) (stack : CallStack) (screen : Screen) (live : Bool)
    (random random' : Nat → Int) :
    Alike (initial memory stack screen live random) (initial memory stack screen live random') :=
  ⟨⟨.replicate 16 false, random', 0, 0, #[]⟩, screen.redraw, rfl⟩

/-- A program that tests for a key with the number 16. -/
def missingKey : List UInt8 := [0x60, 0x10, 0xE0, 0x9E]

theorem missingKey_run (h : Reachable m) (hpc : m.pc = 0x200)
    (hb : ∀ a, m.memory.byteAt a = Rom.imageAt missingKey a) :
    (∀ s ∈ m.starts [.step, .step], ¬ s.Asks) ∧
      ((m.starts [.step, .step]).map noticed).map Notice.fault =
        [none, some (.key 16 0 0x202)] := by
  obtain ⟨_, hc, hs⟩ := h.step_of_bytes 0x200 (.loadByte 0 16) hpc (by decide) (hb _) (hb _) rfl
  have h1 := h.act .step
  rw [act_step, hs] at h1
  obtain ⟨_, _, hs1⟩ := h1.step_of_bytes 0x202 (.skipPressed 0) (congrArg (· + 2) hpc)
    (by decide) (hb _) (hb _) rfl
  have hreg : ((m.begun (.loadByte 0 16)).execute (.loadByte 0 16)).machine.reg 0 = 16 :=
    reg_setReg (m.begun (.loadByte 0 16)) 0 0 16
  have hpc1 : ((m.begun (.loadByte 0 16)).execute (.loadByte 0 16)).machine.pc = 0x202 :=
    congrArg (· + 2) hpc
  have hstarts : m.starts [.step, .step] =
      [m, ((m.begun (.loadByte 0 16)).execute (.loadByte 0 16)).machine] := by
    rw [starts, starts, starts, act_step, hs]
  have hf : m.step.fault = none := by
    rw [hs]
    rfl
  rw [hstarts]
  generalize ((m.begun (.loadByte 0 16)).execute (.loadByte 0 16)).machine = m1 at *
  have hf1 : m1.step.fault = some (.key 16 0 0x202) := by
    have hreg' : (m1.begun (.skipPressed 0)).reg 0 = 16 := hreg
    have hpc' : (m1.begun (.skipPressed 0)).pc = 0x202 := hpc1
    rw [hs1, execute, fault_skipOnKey, hreg', hpc']
    rfl
  refine ⟨?_, ?_⟩
  · intro s hmem
    rcases List.mem_cons.mp hmem with rfl | hmem
    · rintro ⟨_, _, inst, hinst, hreads⟩
      rw [hc] at hinst
      cases hinst
      exact hreads
    · rw [List.mem_singleton.mp hmem]
      rintro ⟨_, hnone, _⟩
      rw [hf1] at hnone
      cases hnone
  · simp only [List.map_cons, List.map_nil, noticed, hf, hf1]

/-- The numbers to come differ, and so do the keys, but the key that the program asks for does not
exist. -/
theorem inputs_unread_missingKey :
    let m := boot missingKey false fun _ => 0
    let m' := boot missingKey false fun _ => 7
    let actions : List Action := [.setKeys (.replicate 16 true), .step, .consumeRedraw, .step]
    Reachable m ∧ Alike m m' ∧ (∀ s ∈ m.starts [.step, .step], ¬ s.Asks) ∧
      ((m'.starts actions).map noticed).map Notice.fault = [none, some (.key 16 0 0x202)] ∧
      Alike (m.after [.step, .step]) (m'.after actions) := by
  have fits : missingKey.length ≤ Rom.maxLength := by decide
  have h : Reachable (boot missingKey false fun _ => 0) := .boot _ _ fits
  have hm : Alike (boot missingKey false fun _ => 0) (boot missingKey false fun _ => 7) :=
    alike_initial _ _ _ _ _ _
  obtain ⟨hask, hfaults⟩ := missingKey_run h rfl (byteAt_boot fits false fun _ => 0)
  generalize boot missingKey false (fun _ => 0) = m at *
  generalize boot missingKey false (fun _ => 7) = m' at *
  intro _ _ actions
  obtain ⟨hnoticed, _, _, hend⟩ := h.inputs_unread hm [.step, .step] actions rfl hask
  rw [hnoticed] at hfaults
  exact ⟨h, hm, hask, hfaults, hend⟩

end Machine

end Chip8
