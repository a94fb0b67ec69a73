import Chip8.Proofs.Machine.Invariant

/-! # Calls and the returns that belong to them

A call puts the address after it on top of the entries in use. Whatever runs from there, these
entries stay at the bottom of the stack until a return takes the address away, and that return goes
on right after the call. A frame of entries with an address above it is thus kept by every action
but the one return that ends it; a run follows by induction on its actions. -/

namespace Chip8.Machine

variable {m : Machine} {frame : List Int} {address : Int}

/-- The next step of a machine is a return to `address` that leaves the entries of `frame`. -/
structure ReturnsTo (m : Machine) (address : Int) (frame : List Int) : Prop where
  running : m.halted = false
  current : m.current? = some .ret
  fault : m.step.fault = none
  pc : m.step.machine.pc = address
  items : m.step.machine.stack.items = frame

/-- A step keeps what is at the bottom of the stack, or returns to the last address of it. -/
theorem frame_step (hpc : 0 ≤ m.pc) (h : frame ++ [address] <+: m.stack.items) :
    frame ++ [address] <+: m.step.machine.stack.items ∨ m.ReturnsTo address frame := by
  rcases step_cases hpc with ⟨_, hs⟩ | ⟨_, _, hs⟩ | ⟨inst, hrun, hc, hs⟩
  · left
    rw [hs]
    exact h
  · left
    rw [hs]
    exact h
  · rcases execute_stack_cases (m.begun inst) inst with
      he | ⟨nnn, stack, _, hp, he⟩ | ⟨top, stack, rfl, hp, he⟩
    · left
      rw [hs, he]
      exact h
    · left
      rw [hs, he]
      simp only [done, (CallStack.push_eq_ok hp).2.2]
      exact h.trans (List.prefix_append _ _)
    · have hitems : m.stack.items = stack.items ++ [top] := (CallStack.pop_eq_ok hp).2.2
      rw [he] at hs
      rw [hitems] at h
      -- What is popped is the address of the frame only if nothing lies above it.
      rcases List.prefix_concat_iff.mp h with heq | hpre
      · obtain ⟨hframe, htop⟩ := List.append_inj' heq rfl
        cases htop
        right
        exact ⟨hrun, hc, by rw [hs]; rfl, by rw [hs]; rfl, by rw [hs]; exact hframe.symm⟩
      · left
        rw [hs]
        exact hpre

theorem frame_act (hpc : 0 ≤ m.pc) (h : frame ++ [address] <+: m.stack.items) (a : Action) :
    frame ++ [address] <+: (m.act a).stack.items ∨ a = .step ∧ m.ReturnsTo address frame := by
  cases a with
  | step => exact (frame_step hpc h).imp id fun hr => ⟨rfl, hr⟩
  | setKeys keys => exact Or.inl h
  | consumeRedraw => exact Or.inl h

/-- A run keeps a frame until the stack is down to the entries below its address. -/
theorem frame_after (hm : Invariant m) (h : frame ++ [address] <+: m.stack.items)
    (actions : List Action)
    (habove : ∀ front, front <+: actions → (m.after front).stack.pointer ≠ frame.length) :
    frame ++ [address] <+: (m.after actions).stack.items := by
  induction actions generalizing m with
  | nil => exact h
  | cons a rest ih =>
    rcases frame_act hm.pc.1 h a with hkept | ⟨rfl, hr⟩
    · apply ih (hm.act a) hkept
      intro front hfront
      exact habove (a :: front) (List.cons_prefix_cons.mpr ⟨rfl, hfront⟩)
    · exfalso
      apply habove [.step] (List.cons_prefix_cons.mpr ⟨rfl, List.nil_prefix⟩)
      rw [← hr.items, CallStack.length_items]
      rfl

theorem act_call (h : Invariant m) {nnn : Int} (hrun : m.halted = false)
    (hc : m.current? = some (.call nnn)) (hfree : m.stack.pointer < 16) :
    (m.act .step).pc = nnn ∧ (m.act .step).stack.items = m.stack.items ++ [m.pc + 2] ∧
      (m.act .step).memory = m.memory := by
  have hs : (m.act .step) = ((m.begun (.call nnn)).execute (.call nnn)).machine :=
    congrArg Outcome.machine (step_of_current? h.pc.1 hrun hc)
  cases hp : (m.begun (.call nnn)).stack.push ((m.begun (.call nnn)).pc + instructionSize) with
  | ok stack =>
    simp only [execute, hp] at hs
    rw [hs]
    exact ⟨rfl, (CallStack.push_eq_ok hp).2.2, rfl⟩
  | error f =>
    have hfull : m.stack.size.toNat ≤ m.stack.pointer := (CallStack.push_eq_error_iff.mp hp).2
    rw [h.depth] at hfull
    omega

theorem act_ret (frame : List Int) (h : Invariant m) (hrun : m.halted = false)
    (hc : m.current? = some .ret) (hitems : m.stack.items = frame ++ [address]) :
    (m.act .step).pc = address ∧ (m.act .step).stack.items = frame ∧
      (m.act .step).memory = m.memory := by
  have hs : (m.act .step) = ((m.begun .ret).execute .ret).machine :=
    congrArg Outcome.machine (step_of_current? h.pc.1 hrun hc)
  cases hp : (m.begun .ret).stack.pop with
  | ok r =>
    have hpop : m.stack.items = r.2.items ++ [r.1] := (CallStack.pop_eq_ok hp).2.2
    rw [hitems] at hpop
    obtain ⟨hframe, htop⟩ := List.append_inj' hpop rfl
    cases htop
    simp only [execute, hp] at hs
    rw [hs]
    exact ⟨rfl, hframe.symm, rfl⟩
  | error f =>
    have hempty : m.stack.pointer = 0 := (CallStack.pop_eq_error_iff.mp hp).2
    rw [← CallStack.length_items, hitems, List.length_append, List.length_singleton] at hempty
    omega

/-- After a call, and for as long as the stack has not come down to where it was, the entries from
before the call and the address after it are at its bottom. The action that first brings it down is
a return to that address, and it leaves exactly those entries. -/
theorem Reachable.frame_of_call (h : Reachable m) {nnn : Int} (hrun : m.halted = false)
    (hc : m.current? = some (.call nnn)) (hfree : m.stack.pointer < 16) (actions : List Action)
    (habove : ∀ front, front <+: actions →
      ((m.act .step).after front).stack.pointer ≠ m.stack.pointer) :
    m.stack.items ++ [m.pc + 2] <+: ((m.act .step).after actions).stack.items ∧
      m.stack.pointer < ((m.act .step).after actions).stack.pointer ∧
      ∀ a, (((m.act .step).after actions).act a).stack.pointer = m.stack.pointer →
        a = .step ∧ ((m.act .step).after actions).ReturnsTo (m.pc + 2) m.stack.items := by
  obtain ⟨_, hitems, _⟩ := act_call h.invariant hrun hc hfree
  have hcalled : m.stack.items ++ [m.pc + 2] <+: (m.act .step).stack.items :=
    ⟨[], by rw [List.append_nil, hitems]⟩
  have hkept := frame_after (h.act .step).invariant hcalled actions fun front hfront => by
    rw [CallStack.length_items]
    exact habove front hfront
  have hdeep := CallStack.length_lt_of_prefix hkept
  rw [CallStack.length_items] at hdeep
  refine ⟨hkept, hdeep, ?_⟩
  intro a ha
  rcases frame_act ((h.act .step).after actions).invariant.pc.1 hkept a with hstill | hr
  · have hlt := CallStack.length_lt_of_prefix hstill
    rw [CallStack.length_items, ha] at hlt
    exact absurd hlt (Nat.lt_irrefl _)
  · exact hr

/-- A program that calls a subroutine, which calls another one. Both return. -/
def nestedCalls : List UInt8 := [0x22, 0x04, 0x12, 0x02, 0x22, 0x08, 0x00, 0xEE, 0x00, 0xEE]

def atOuterCall : Machine := boot nestedCalls false fun _ => 0

/-- The inner call, a change of keys and the inner return. -/
def innerCall : List Action := [.step, .setKeys (.replicate 16 true), .step]

/-- The stack is empty again after the step that follows the inner call, and not before. -/
theorem nestedCalls_items (h : Reachable m) (hpc : m.pc = 0x200) (hitems : m.stack.items = [])
    (hb : ∀ a, m.memory.byteAt a = Rom.imageAt nestedCalls a) :
    m.halted = false ∧ m.current? = some (.call 0x204) ∧
      (∀ front, front <+: innerCall → ((m.act .step).after front).stack.items ≠ []) ∧
      (((m.act .step).after innerCall).act .step).stack.items = [] := by
  obtain ⟨hrun, hc, _⟩ := h.step_of_bytes 0x200 (.call 0x204) hpc (by decide)
    (hb _) (hb _) rfl
  have hfree : m.stack.pointer < 16 := by rw [← CallStack.length_items, hitems]; decide
  obtain ⟨hpc1, hitems1, hmem1⟩ := act_call h.invariant hrun hc hfree
  have h1 := h.act .step
  rw [hitems, hpc] at hitems1
  refine ⟨hrun, hc, ?_⟩
  rw [← hmem1] at hb
  generalize m.act .step = m1 at *
  -- The inner call.
  obtain ⟨hrun1, hc1, _⟩ := h1.step_of_bytes 0x204 (.call 0x208) hpc1 (by decide)
    (hb _) (hb _) rfl
  have hfree1 : m1.stack.pointer < 16 := by rw [← CallStack.length_items, hitems1]; decide
  obtain ⟨hpc2, hitems2, hmem2⟩ := act_call h1.invariant hrun1 hc1 hfree1
  have h2 := (h1.act .step).act (.setKeys (.replicate 16 true))
  rw [hitems1, hpc1] at hitems2
  rw [← hmem2] at hb
  -- Its return, and the outer one.
  obtain ⟨hrun2, hc2, _⟩ := h2.step_of_bytes 0x208 .ret hpc2 (by decide)
    (hb _) (hb _) rfl
  obtain ⟨hpc3, hitems3, hmem3⟩ := act_ret [0x202] h2.invariant hrun2 hc2 hitems2
  have h3 := h2.act .step
  have hb3 := fun a => (congrArg (Memory.byteAt · a) hmem3).trans (hb a)
  obtain ⟨hrun3, hc3, _⟩ := h3.step_of_bytes 0x206 .ret hpc3 (by decide)
    (hb3 _) (hb3 _) rfl
  refine ⟨?_, (act_ret [] h3.invariant hrun3 hc3 hitems3).2.1⟩
  intro front hfront hnil
  rcases List.prefix_cons_iff.mp hfront with rfl | ⟨_, rfl, hfront1⟩
  · cases hitems1.symm.trans hnil
  rcases List.prefix_cons_iff.mp hfront1 with rfl | ⟨_, rfl, hfront2⟩
  · cases hitems2.symm.trans hnil
  rcases List.prefix_cons_iff.mp hfront2 with rfl | ⟨_, rfl, hfront3⟩
  · cases hitems2.symm.trans hnil
  · cases List.prefix_nil.mp hfront3
    cases hitems3.symm.trans hnil

theorem frame_of_call_nested :
    Reachable atOuterCall ∧ atOuterCall.halted = false ∧
      atOuterCall.current? = some (.call 0x204) ∧ atOuterCall.stack.pointer < 16 ∧
      (∀ front, front <+: innerCall →
        ((atOuterCall.act .step).after front).stack.pointer ≠ atOuterCall.stack.pointer) ∧
      ((atOuterCall.act .step).after innerCall).ReturnsTo 0x202 [] := by
  have fits : nestedCalls.length ≤ Rom.maxLength := by decide
  have h : Reachable atOuterCall := .boot _ _ fits
  obtain ⟨hrun, hc, hne, hnil⟩ := nestedCalls_items h rfl rfl (byteAt_boot fits _ _)
  have hfree : atOuterCall.stack.pointer < 16 := by decide
  have habove : ∀ front, front <+: innerCall →
      ((atOuterCall.act .step).after front).stack.pointer ≠ atOuterCall.stack.pointer := by
    intro front hfront hp
    apply hne front hfront
    apply List.eq_nil_of_length_eq_zero
    rw [CallStack.length_items]
    exact hp
  obtain ⟨_, _, hreturn⟩ := h.frame_of_call hrun hc hfree innerCall habove
  have hlast : (((atOuterCall.act .step).after innerCall).act .step).stack.pointer = 0 := by
    rw [← CallStack.length_items, hnil]
    rfl
  exact ⟨h, hrun, hc, hfree, habove, (hreturn .step hlast).2⟩

end Chip8.Machine
