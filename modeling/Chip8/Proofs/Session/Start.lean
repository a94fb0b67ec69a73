import Chip8.Session

/-! # Sessions that do not start

A start takes the terminal over as soon as it opens the display and gives nothing back; only a
session that came as far as running does. So a start that fails leaves the terminal as it was
exactly if it failed before that: `TakesOver` says when it did not. -/

namespace Chip8.Session

namespace Attempt

variable {α β ε : Type} {call : HostCall}

theorem mem_calls_bind {first : Attempt α} {next : α → Attempt β} :
    call ∈ (first >>= next).calls ↔
      call ∈ first.calls ∨ ∃ a, first.result = .ok a ∧ call ∈ (next a).calls := by
  change call ∈ (andThen first next).calls ↔ _
  unfold andThen
  split
  · rename_i f hf
    simp [hf]
  · rename_i a ha
    simp [ha]

theorem result_bind_eq_ok {first : Attempt α} {next : α → Attempt β} {b : β} :
    (first >>= next).result = .ok b ↔ ∃ a, first.result = .ok a ∧ (next a).result = .ok b := by
  change (andThen first next).result = .ok b ↔ _
  unfold andThen
  split
  · rename_i f hf
    simp [hf]
  · rename_i a ha
    simp [ha]

@[simp] theorem result_pure_eq_ok {a b : α} : (pure a : Attempt α).result = .ok b ↔ a = b :=
  Except.ok.injEq a b ▸ Iff.rfl

@[simp] theorem calls_pure (a : α) : (pure a : Attempt α).calls = [] := rfl

@[simp] theorem calls_ofExcept (cause : ε → Fault) (r : Except ε α) :
    (ofExcept cause r).calls = [] := rfl

@[simp] theorem result_ofExcept_eq_ok {cause : ε → Fault} {r : Except ε α} {a : α} :
    (ofExcept cause r).result = .ok a ↔ r = .ok a := by
  cases r with
  | error e => exact ⟨nofun, nofun⟩
  | ok b => constructor <;> rintro ⟨⟩ <;> rfl

@[simp] theorem calls_terminalCalls (calls : List Terminal.Call) :
    (terminalCalls calls).calls = calls.map .terminal := rfl

@[simp] theorem calls_windowCalls (calls : List Window.Call) :
    (windowCalls calls).calls = calls.map .window := rfl

end Attempt

open Attempt

variable {installed : Installed} {read : ProgramFile → Except Rom.Fault (List UInt8)}
  {o : Options} {s : Surroundings} {random : Nat → Int}

theorem mention_eq_ok_iff {α : Type} {option : String} {setting : Setting α} {u : Unit} :
    mention option setting = .ok u ↔ setting.isMentioned = true := by
  unfold mention
  split <;> simp [*]

/-! ## The calls of a start -/

/-- A start makes no calls but to open a front end, and that only with a program to run. -/
theorem mem_calls_start {call : HostCall} :
    call ∈ (start installed read o s random).calls ↔
      o.renderer.isMentioned = true ∧ o.mute.isMentioned = true ∧
        (∃ file program,
          programFile o.filename = .ok file ∧ loadProgram read file = .ok program) ∧
        ∃ kind, chooseKind installed o.renderer = .ok kind ∧ o.scale.isMentioned = true ∧
          call ∈ (openFrontEnd o s kind).calls := by
  unfold start
  simp only [mem_calls_bind, mention_eq_ok_iff, calls_ofExcept, result_ofExcept_eq_ok, calls_pure,
    List.not_mem_nil, false_or]
  constructor
  · rintro ⟨_, hrenderer, _, hmute, file, hfile, program, hload, kind, hkind, _, hscale, hcall⟩
    refine ⟨hrenderer, hmute, ⟨file, program, hfile, hload⟩, kind, hkind, hscale, ?_⟩
    rcases hcall with hcall | ⟨_, _, _, _, _, _, habsurd⟩
    · exact hcall
    · exact habsurd.elim
  · rintro ⟨hrenderer, hmute, ⟨file, program, hfile, hload⟩, kind, hkind, hscale, hcall⟩
    exact ⟨(), hrenderer, (), hmute, file, hfile, program, hload, kind, hkind, (), hscale,
      Or.inl hcall⟩

/-- Calls by which a terminal is taken over and prepared. -/
def IsOpening (call : Terminal.Call) : Prop :=
  call ∈ Terminal.Display.takeOver Terminal.Display.defaultCursorMode ∨
    ∃ height width, call = .newPad height width

theorem isOpening_of_open {call : Terminal.Call}
    (hc : call ∈ (Terminal.Display.open? s.room o.scale Terminal.Display.defaultCursorMode
      s.resizable).2) :
    (∃ chosen, Terminal.Display.chooseScale s.room o.scale = .ok chosen) ∧ IsOpening call := by
  unfold Terminal.Display.open? at hc
  split at hc
  · cases hc
  · rename_i asked scale hchosen
    refine ⟨⟨_, hchosen⟩, ?_⟩
    split at hc
    · exact Or.inl hc
    · rcases List.mem_append.mp hc with htake | hpad
      · exact Or.inl htake
      · exact Or.inr ⟨_, _, List.mem_singleton.mp hpad⟩

/-- A scale of which a pixel can be written down takes the terminal over, even one that is then
found to be too small. -/
theorem start_mem_of_chooseScale {chosen : Extent × Int}
    (hchosen : Terminal.Display.chooseScale s.room o.scale = .ok chosen) :
    .start ∈ (Terminal.Display.open? s.room o.scale Terminal.Display.defaultCursorMode
      s.resizable).2 := by
  unfold Terminal.Display.open?
  rw [hchosen]
  simp only []
  split <;> simp [Terminal.Display.takeOver]

theorem mem_calls_openFrontEnd {call : Terminal.Call} {kind : FrontEndKind}
    (hc : HostCall.terminal call ∈ (openFrontEnd o s kind).calls) :
    kind = .terminal ∧ (∃ chosen, Terminal.Display.chooseScale s.room o.scale = .ok chosen) ∧
      IsOpening call := by
  cases kind with
  | headless => simp [openFrontEnd, openHeadless, mem_calls_bind] at hc
  | window =>
    simp only [openFrontEnd, openWindow, mem_calls_bind, calls_ofExcept, calls_windowCalls,
      List.mem_map, reduceCtorEq, and_false, exists_false, false_or, List.not_mem_nil] at hc
    obtain ⟨_, _, _, _, _, _, _, _, _, _, hc⟩ := hc
    split at hc <;> simp [mem_calls_bind] at hc
  | terminal =>
    simp only [openFrontEnd, openTerminal, mem_calls_bind, calls_ofExcept, calls_terminalCalls,
      calls_pure, result_ofExcept_eq_ok, List.mem_map, HostCall.terminal.injEq,
      exists_eq_right, List.not_mem_nil, and_false, exists_false, false_or, or_false] at hc
    refine ⟨rfl, ?_⟩
    rcases hc with hc | ⟨_, _, d, hd, hc⟩
    · exact isOpening_of_open hc
    -- The pad of the standard resolution, once the display is open.
    · refine ⟨?_, Or.inr ⟨_, _, List.mem_singleton.mp hc⟩⟩
      unfold Terminal.Display.open? at hd
      split at hd
      · cases hd
      · exact ⟨_, ‹_›⟩

/-! ## Taking over and giving back -/

/-- A terminal that is taken over is given back afterwards. -/
def GivesBack (calls : List HostCall) : Prop :=
  ∀ before after, calls = before ++ .terminal .start :: after →
    .terminal .lineBufferOn ∈ after ∧ .terminal .echoOn ∈ after ∧ .terminal .finish ∈ after

/-- The start comes as far as opening a display in a terminal. -/
structure TakesOver (installed : Installed)
    (read : ProgramFile → Except Rom.Fault (List UInt8)) (o : Options) (room : Nat) : Prop where
  renderer : o.renderer.isMentioned = true
  mute : o.mute.isMentioned = true
  program : ∃ file program,
    programFile o.filename = .ok file ∧ loadProgram read file = .ok program
  kind : chooseKind installed o.renderer = .ok .terminal
  scale : o.scale.isMentioned = true
  /-- A pixel of this scale can be written down, whether the scale is large enough or not. -/
  pixel : ∃ chosen, Terminal.Display.chooseScale room o.scale = .ok chosen

theorem start_mem_calls_iff :
    .terminal .start ∈ (start installed read o s random).calls ↔
      TakesOver installed read o s.room := by
  rw [mem_calls_start]
  constructor
  · rintro ⟨hrenderer, hmute, hprogram, kind, hkind, hscale, hcall⟩
    obtain ⟨rfl, hpixel, _⟩ := mem_calls_openFrontEnd hcall
    exact ⟨hrenderer, hmute, hprogram, hkind, hscale, hpixel⟩
  · intro h
    obtain ⟨chosen, hchosen⟩ := h.pixel
    have hmem := start_mem_of_chooseScale hchosen
    refine ⟨h.renderer, h.mute, h.program, .terminal, h.kind, h.scale, ?_⟩
    simp only [openFrontEnd, openTerminal, mem_calls_bind, calls_terminalCalls]
    exact Or.inl (List.mem_map_of_mem hmem)

/-- A start gives nothing back. -/
theorem finish_not_mem_calls : .terminal .finish ∉ (start installed read o s random).calls := by
  rw [mem_calls_start]
  rintro ⟨_, _, _, kind, _, _, hcall⟩
  obtain ⟨_, _, htake | ⟨_, _, hpad⟩⟩ := mem_calls_openFrontEnd hcall
  · simp [Terminal.Display.takeOver] at htake
  · cases hpad

theorem givesBack_iff {calls : List HostCall} (hfinish : .terminal .finish ∉ calls) :
    GivesBack calls ↔ .terminal .start ∉ calls := by
  constructor
  · intro hback hstart
    obtain ⟨before, after, hsplit⟩ := List.append_of_mem hstart
    apply hfinish
    rw [hsplit]
    exact List.mem_append_right _ (List.mem_cons_of_mem _ (hback before after hsplit).2.2)
  · rintro hstart before after rfl
    exact absurd (List.mem_append_right _ List.mem_cons_self) hstart

/-- Whatever is asked for, whatever the program is to be read from and however much room there is: a
session that does not start leaves the terminal as it was, unless it failed after the terminal was
taken over. -/
theorem run_givesBack_iff (installed : Installed)
    (read : ProgramFile → Except Rom.Fault (List UInt8)) (o : Options) (s : Surroundings)
    (random : Nat → Int) (clock : HostLoop.Clock) {f : Fault}
    (hfailed : (run installed read o s random clock).ending = .notStarted f) :
    GivesBack (run installed read o s random clock).calls ↔
      ¬ TakesOver installed read o s.room := by
  have hcalls : (run installed read o s random clock).calls =
      (start installed read o s random).calls := by
    unfold run at hfailed ⊢
    simp only [] at hfailed ⊢
    split at hfailed
    · rfl
    · simp only [close, endingOf] at hfailed
      split at hfailed <;> cases hfailed
  rw [hcalls, givesBack_iff finish_not_mem_calls, start_mem_calls_iff]

def readable : ProgramFile → Except Rom.Fault (List UInt8) := fun _ => .ok [0x12, 0x00]

/-- Asks for a terminal and this scale. -/
def inTerminal (scale : Int) : Options :=
  ⟨.given (.path "rom.ch8"), .given "curses", .given (.whole scale), .unset,
    .given Keymap.standard, .given false⟩

/-- A host without terminals is found out before anything is done to it. -/
theorem givesBack_without_terminal :
    let report := run ⟨true, false⟩ readable (inTerminal 2) (.quiet 0x1000) (fun _ => 0) ⟨0, 0, 0⟩
    report.ending = .notStarted .noTerminal ∧ GivesBack report.calls := by
  intro report
  have hending : report.ending = .notStarted .noTerminal := rfl
  refine ⟨hending, (run_givesBack_iff _ _ _ _ _ _ hending).mpr fun h => ?_⟩
  cases h.kind

/-- A scale of zero is found out after the terminal was taken over. -/
theorem keeps_terminal_at_scale_zero :
    let report := run ⟨true, true⟩ readable (inTerminal 0) (.quiet 0x1000) (fun _ => 0) ⟨0, 0, 0⟩
    report.ending = .notStarted (.display .scaleTooSmall) ∧ ¬ GivesBack report.calls := by
  intro report
  have hcalls : report.calls = (Terminal.Display.takeOver .hidden).map .terminal := rfl
  refine ⟨rfl, fun hback => ?_⟩
  rw [hcalls] at hback
  obtain ⟨_, _, hfinish⟩ := hback [] _ rfl
  simp at hfinish

end Chip8.Session
