import Chip8.Proofs.Session.Run
import Chip8.Proofs.Session.Start
import Chip8.Proofs.Terminal.Push

/-! # Closing

A session that came as far as running closes its front end once, at its very end. Neither a start
nor a running loop makes any of the calls that close a front end, and the loop does not change what
there is to close, so it does not matter after how many ticks the loop ends, nor how: the user
quits, an instruction cannot be executed, or a clock stops, if need be in the middle of a tick. -/

namespace Chip8

/-- The calls that close a front end: the sound, then the keyboard, which takes none, then the
display. -/
def FrontEnd.closing : FrontEnd → List HostCall
  | .headless => []
  | .terminal d _ _ => d.close.map .terminal
  | .window _ _ b =>
    ((if b.isSome then Window.Buzzer.close else []) ++ Window.Display.close).map .window

theorem Console.calls_close (c : Console) :
    c.close.calls.toList = c.calls.toList ++ c.frontEnd.closing := by
  obtain ⟨f, s, calls, stopped⟩ := c
  cases f with
  | headless => exact (List.append_nil _).symm
  | terminal d k b => exact Array.toList_appendList
  | window d k b => exact Array.toList_appendList

namespace Session

open HostLoop Runner Attempt

variable {installed : Installed} {read : ProgramFile → Except Rom.Fault (List UInt8)}
  {o : Options} {s : Surroundings} {random : Nat → Int} {kind : FrontEndKind} {f : FrontEnd}
  {c : Console} {t : Binary64} {closed : List HostCall} {interval : Option Binary64}

/-- The calls that close a front end of this kind. A silent window has no sound to close. -/
def closing (mute : Setting Int) : FrontEndKind → List HostCall
  | .headless => []
  | .terminal =>
    [.terminal .lineBufferOn, .terminal .echoOn, .terminal (.cursor .normal), .terminal .finish]
  | .window =>
    (if muted .window mute then [] else [.window .stopSound, .window .closeMixer]) ++
      [.window .closeDisplay]

/-- Whether a call belongs to closing a front end of some kind. -/
def closes (call : HostCall) : Bool :=
  call ∈ closing .unset .terminal ∨ call ∈ closing .unset .window

/-! ## The running loop -/

/-- What there is to close is known, and nothing has been closed. -/
structure Working (closed : List HostCall) (c : Console) : Prop where
  closing : c.frontEnd.closing = closed
  unclosed : ∀ call ∈ c.calls.toList, closes call = false

theorem Working.note (hc : Working closed c) {c' : Console} {made : List HostCall}
    (hf : c'.frontEnd.closing = closed) (hcalls : c'.calls.toList = c.calls.toList ++ made)
    (hmade : ∀ call ∈ made, closes call = false) : Working closed c' where
  closing := hf
  unclosed := by
    intro call hcall
    rw [hcalls, List.mem_append] at hcall
    rcases hcall with hcall | hcall
    · exact hc.unclosed call hcall
    · exact hmade call hcall

theorem closes_writePad (row column : Int) (text : String) (reverse : Bool) :
    closes (.terminal (.writePad row column text reverse)) = false := by
  simp [closes, closing, muted]

theorem not_closes_refresh (d : Terminal.Display) (changed : Bool) (size : Int × Int) :
    ∀ call ∈ (d.refresh changed size).2, closes (.terminal call) = false := by
  rcases d.refresh_cases changed size with ⟨_, _, h⟩ | ⟨_, _, _, h⟩ | ⟨_, h⟩
  · simp [h, closes, closing, muted]
  · simp [h]
  · rw [h]
    cases d.resizable <;> simp [closes, closing, muted]

theorem not_closes_drawTerminal (d : Terminal.Display) (s : Surroundings) (request : Request) :
    ∀ call ∈ (Console.drawTerminal d s request).2.2, closes (.terminal call) = false := by
  cases request with
  | title text =>
    intro call hcall
    obtain rfl := List.mem_singleton.mp hcall
    exact closes_writePad _ _ _ _
  | pixel w =>
    intro call hcall
    obtain rfl := List.mem_singleton.mp hcall
    exact closes_writePad _ _ _ _
  | refresh => exact not_closes_refresh d true s.takeSize.1
  | beep => exact fun _ habsurd => absurd habsurd List.not_mem_nil

theorem cursorMode_drawTerminal (d : Terminal.Display) (s : Surroundings) (request : Request) :
    (Console.drawTerminal d s request).1.cursorMode = d.cursorMode := by
  cases request with
  | refresh =>
    rcases d.refresh_cases true s.takeSize.1 with ⟨_, _, h⟩ | ⟨_, _, _, h⟩ | ⟨_, h⟩
    all_goals
      change (d.refresh true s.takeSize.1).1.cursorMode = d.cursorMode
      rw [h]
  | _ => rfl

theorem not_closes_show (d : Window.Display) (changed : Bool) :
    ∀ call ∈ d.refresh changed, closes (.window call) = false := by
  unfold Window.Display.refresh
  split <;> simp [closes, closing, muted]

theorem not_closes_drawWindow (d : Window.Display) (request : Request) :
    ∀ call ∈ (Console.drawWindow d request).2, closes (.window call) = false := by
  cases request with
  | title text => simp [Console.drawWindow, closes, closing, muted]
  | pixel w => simp [Console.drawWindow]
  | refresh => exact not_closes_show d true
  | beep => simp [Console.drawWindow]

theorem not_closes_beep (b : Window.Buzzer) (busy granted : Bool) :
    ∀ call ∈ (b.beep busy granted).2, closes (.window call) = false := by
  unfold Window.Buzzer.beep
  split <;> simp [closes, closing, muted]

/-- A window that has a buzzer keeps one. -/
theorem isSome_buzz (s : Surroundings) (b : Option Window.Buzzer) :
    (Console.buzz s b).1.isSome = b.isSome := by
  cases b <;> rfl

theorem not_closes_buzz (s : Surroundings) (b : Option Window.Buzzer) :
    ∀ call ∈ (Console.buzz s b).2.2, closes (.window call) = false := by
  cases b with
  | none => exact fun _ habsurd => absurd habsurd List.not_mem_nil
  | some b => exact not_closes_beep b _ _

theorem not_closes_ring (t : Binary64) (s : Surroundings) (b : Option Terminal.Bell) :
    ∀ call ∈ (Console.ring t s b).2.2.getD [], closes (.terminal call) = false := by
  rcases (Terminal.ring_cases t s b).2 with h | h <;> simp [h, closes, closing, muted]

theorem closing_terminal {d d' : Terminal.Display} {i i' : Terminal.Input}
    {b b' : Option Terminal.Bell} (h : d'.cursorMode = d.cursorMode) :
    (FrontEnd.terminal d' i' b').closing = (FrontEnd.terminal d i b).closing := by
  simp only [FrontEnd.closing, Terminal.Display.close, h]

theorem closing_window {d d' : Window.Display} {k k' : Window.Keyboard}
    {b b' : Option Window.Buzzer} (h : b'.isSome = b.isSome) :
    (FrontEnd.window d' k' b').closing = (FrontEnd.window d k b).closing := by
  simp only [FrontEnd.closing, h]

theorem handle_terminal (t : Binary64) (request : Request) (d : Terminal.Display)
    (i : Terminal.Input) (b : Option Terminal.Bell) (s : Surroundings)
    (calls : Array HostCall) (stopped : Bool) :
    ∃ d' b' s' stopped' made, Console.handle t request ⟨.terminal d i b, s, calls, stopped⟩ =
        Console.noteTerminal ⟨.terminal d' i b', s', calls, stopped'⟩ made ∧
      d'.cursorMode = d.cursorMode ∧ ∀ call ∈ made, closes (.terminal call) = false := by
  -- A beep is for the bell, everything else for the display.
  have hdraw := fun request => cursorMode_drawTerminal d s request
  have hmade := fun request => not_closes_drawTerminal d s request
  cases request with
  | beep => exact ⟨d, _, _, _, _, rfl, rfl, not_closes_ring t s b⟩
  | title text => exact ⟨_, b, _, _, _, rfl, hdraw (.title text), hmade (.title text)⟩
  | pixel w => exact ⟨_, b, _, _, _, rfl, hdraw (.pixel w), hmade (.pixel w)⟩
  | refresh => exact ⟨_, b, _, _, _, rfl, hdraw .refresh, hmade .refresh⟩

theorem handle_window (t : Binary64) (request : Request) (d : Window.Display)
    (k : Window.Keyboard) (b : Option Window.Buzzer) (s : Surroundings)
    (calls : Array HostCall) (stopped : Bool) :
    ∃ d' b' s' made, Console.handle t request ⟨.window d k b, s, calls, stopped⟩ =
        Console.noteWindow ⟨.window d' k b', s', calls, stopped⟩ made ∧
      b'.isSome = b.isSome ∧ ∀ call ∈ made, closes (.window call) = false := by
  have hmade := fun request => not_closes_drawWindow d request
  cases request with
  | beep => exact ⟨d, _, _, _, rfl, isSome_buzz s b, not_closes_buzz s b⟩
  | title text => exact ⟨_, b, s, _, rfl, rfl, hmade (.title text)⟩
  | pixel w => exact ⟨_, b, s, _, rfl, rfl, hmade (.pixel w)⟩
  | refresh => exact ⟨_, b, s, _, rfl, rfl, hmade .refresh⟩

/-- Acting on a request closes nothing and keeps what there is to close. -/
theorem Working.handle (hc : Working closed c) (t : Binary64) (request : Request) :
    Working closed (c.handle t request) := by
  have hclosing := hc.closing
  obtain ⟨f, s, calls, stopped⟩ := c
  cases f with
  | headless => exact hc
  | terminal d i b =>
    obtain ⟨d', b', s', _, made, hhandle, hmode, hmade⟩ :=
      handle_terminal t request d i b s calls stopped
    rw [hhandle]
    exact hc.note ((closing_terminal hmode).trans hclosing) Array.toList_appendList
      (List.forall_mem_map.mpr hmade)
  | window d k b =>
    obtain ⟨d', b', s', made, hhandle, hbuzzer, hmade⟩ :=
      handle_window t request d k b s calls stopped
    rw [hhandle]
    exact hc.note ((closing_window hbuzzer).trans hclosing) Array.toList_appendList
      (List.forall_mem_map.mpr hmade)

/-- Asking for input makes no calls at all. -/
theorem Working.poll (hc : Working closed c) (t : Binary64) : Working closed (c.poll t).2 := by
  have hclosing := hc.closing
  obtain ⟨f, s, calls, stopped⟩ := c
  cases f with
  | headless => exact hc
  | terminal d i b => exact ⟨(closing_terminal rfl).trans hclosing, hc.unclosed⟩
  | window d k b => exact ⟨(closing_window rfl).trans hclosing, hc.unclosed⟩

theorem Working.feed {r : Runner Console} (hr : Working closed r.host) (t : Binary64) :
    Working closed (Session.feed interval r t).host := by
  by_cases hready : r.phase = .ready
  · rw [feed_of_ready hready, host_tick, Runner.host_tick]
    apply handleAll_of_keeps fun request _ c hc => hc.handle t request
    exact input_of_keeps (fun c hc => hc.poll t) hr
  · rw [feed_of_not_ready hready, (Runner.feed_of_not_ready hready).2]
    exact hr

/-- However long a session runs, what there is to close stays open. -/
theorem Working.along {r : Runner Console} (hr : Working closed r.host)
    (clock : Nat → Binary64) (n : Nat) :
    Working closed (Session.along interval clock r n).host := by
  induction n with
  | zero => exact hr
  | succ n ih => exact ih.feed (clock n)

/-- A loop starts with a title, so it works on a front end from the first call on. -/
theorem working_start (f : FrontEnd) (s : Surroundings) (m : Machine) :
    Working f.closing (Runner.start Console.host m (.ofFrontEnd f s)).host := by
  have hopen : Working f.closing (.ofFrontEnd f s) :=
    ⟨rfl, fun _ habsurd => absurd habsurd List.not_mem_nil⟩
  exact hopen.handle 0 (.title (titleText 0 0))

/-! ## The start -/

theorem cursorMode_open {room : Nat} {scale : Setting Extent} {mode : Terminal.CursorMode}
    {resizable : Bool} {d : Terminal.Display}
    (h : (Terminal.Display.open? room scale mode resizable).1 = .ok d) :
    d.cursorMode = mode := by
  unfold Terminal.Display.open? at h
  split at h
  · cases h
  · split at h
    · cases h
    · cases h
      rfl

theorem closing_terminal_of_cursorMode {d : Terminal.Display} {i : Terminal.Input}
    {b : Option Terminal.Bell} (h : d.cursorMode = Terminal.Display.defaultCursorMode) :
    (FrontEnd.terminal d i b).closing = closing o.mute .terminal := by
  simp only [FrontEnd.closing, Terminal.Display.close, h]
  rfl

theorem closing_window_of_muted {d : Window.Display} {k : Window.Keyboard}
    {b : Option Window.Buzzer} (h : b.isSome = !muted .window o.mute) :
    (FrontEnd.window d k b).closing = closing o.mute .window := by
  simp only [FrontEnd.closing, closing, h]
  cases muted .window o.mute <;> rfl

/-- Whatever was opened, what there is to close follows from its kind. -/
theorem closing_openFrontEnd (h : (openFrontEnd o s kind).result = .ok f) :
    f.closing = closing o.mute kind := by
  cases kind with
  | headless =>
    simp only [openFrontEnd, openHeadless, result_bind_eq_ok, result_pure_eq_ok] at h
    obtain ⟨_, _, _, _, _, _, rfl⟩ := h
    rfl
  | terminal =>
    simp only [openFrontEnd, openTerminal, result_bind_eq_ok, result_pure_eq_ok,
      result_ofExcept_eq_ok] at h
    obtain ⟨_, _, d, hd, _, _, _, _, _, _, rfl⟩ := h
    have hmode : d.cursorMode = Terminal.Display.defaultCursorMode := cursorMode_open hd
    exact closing_terminal_of_cursorMode hmode
  | window =>
    simp only [openFrontEnd, openWindow, result_bind_eq_ok, result_ofExcept_eq_ok] at h
    obtain ⟨_, _, _, _, _, _, _, _, _, _, h⟩ := h
    split at h
    · rename_i hmuted
      obtain rfl := result_pure_eq_ok.mp h
      exact closing_window_of_muted (by rw [hmuted]; rfl)
    · rename_i hmuted
      obtain ⟨_, _, h⟩ := result_bind_eq_ok.mp h
      obtain rfl := result_pure_eq_ok.mp h
      exact closing_window_of_muted (by rw [Bool.eq_false_iff.mpr hmuted]; rfl)

theorem not_closes_takeOver : ∀ call ∈ Terminal.Display.takeOver .hidden,
    closes (.terminal call) = false := by
  simp [Terminal.Display.takeOver, Terminal.CursorMode.hidden, Terminal.CursorMode.normal,
    closes, closing, muted]

theorem not_closes_setResolution (d : Window.Display) (width height : Int) :
    ∀ call ∈ (d.setResolution width height).2, closes (.window call) = false := by
  unfold Window.Display.setResolution
  exact not_closes_show _ true

theorem not_closes_openCalls (scale : Extent) :
    ∀ call ∈ Window.Display.openCalls scale, closes (.window call) = false := by
  simp [Window.Display.openCalls, Window.Display.greeting, closes, closing, muted]

theorem not_closes_open (scale : Setting Extent) :
    ∀ call ∈ (Window.Display.open? scale).2, closes (.window call) = false := by
  unfold Window.Display.open?
  split
  · simp [Window.Display.greeting, closes, closing, muted]
  · split
    · exact not_closes_openCalls _
    · exact List.forall_mem_append.mpr ⟨not_closes_openCalls _, not_closes_setResolution _ 0 0⟩

theorem not_closes_start : ∀ call ∈ Window.Buzzer.start.2, closes (.window call) = false := by
  simp [Window.Buzzer.start, closes, closing, muted]

/-- Opening a front end closes nothing, whether it succeeds or not. -/
theorem not_closes_openFrontEnd {call : HostCall} (h : call ∈ (openFrontEnd o s kind).calls) :
    closes call = false := by
  cases call with
  | terminal call =>
    obtain ⟨_, _, htake | ⟨_, _, rfl⟩⟩ := mem_calls_openFrontEnd h
    · exact not_closes_takeOver call htake
    · simp [closes, closing, muted]
  | window call =>
    -- Only a window is opened by such calls: the display first, then its picture, then the sound.
    cases kind with
    | headless => simp [openFrontEnd, openHeadless, mem_calls_bind] at h
    | terminal => simp [openFrontEnd, openTerminal, mem_calls_bind] at h
    | window =>
      simp only [openFrontEnd, openWindow, mem_calls_bind, calls_ofExcept, calls_windowCalls,
        List.mem_map, HostCall.window.injEq, exists_eq_right, List.not_mem_nil, false_or] at h
      rcases h with h | ⟨_, _, d, hd, h | ⟨_, _, _, _, _, _, h⟩⟩
      · exact not_closes_open _ call h
      · exact not_closes_setResolution d _ _ call h
      · split at h
        · cases h
        · obtain h | ⟨_, _, habsurd⟩ := mem_calls_bind.mp h
          · obtain ⟨made, hmade, hsame⟩ := List.mem_map.mp h
            cases hsame
            exact not_closes_start call hmade
          · cases habsurd

/-- A session that starts has opened a front end of the kind that was chosen. -/
theorem frontEnd_of_start {ready : Ready}
    (h : (start installed read o s random).result = .ok ready) :
    ∃ kind f, chooseKind installed o.renderer = .ok kind ∧
      (openFrontEnd o s kind).result = .ok f ∧ ready.console = .ofFrontEnd f s := by
  simp only [start, result_bind_eq_ok, result_ofExcept_eq_ok, result_pure_eq_ok] at h
  obtain ⟨_, _, _, _, _, _, _, _, kind, hkind, _, _, f, hf, _, _, _, _, rfl⟩ := h
  exact ⟨kind, f, hkind, hf, rfl⟩

theorem not_closes_calls_start {call : HostCall}
    (h : call ∈ (start installed read o s random).calls) : closes call = false := by
  obtain ⟨_, _, _, _, _, _, hcall⟩ := mem_calls_start.mp h
  exact not_closes_openFrontEnd hcall

/-! ## The end -/

theorem endingOf_of_not_ended {r : Runner Console} (h : r.ended = false) :
    endingOf r.phase = .clockStopped := by
  cases hphase : r.phase with
  | ready => rfl
  | waiting d => rfl
  | stopped v =>
    rw [ended_of_stopped hphase] at h
    cases h

theorem ended_of_endingOf {r : Runner Console} {f : HostLoop.Fault}
    (h : endingOf r.phase = .faulted f) : r.ended = true := by
  rw [← Bool.not_eq_false]
  intro hnot
  rw [endingOf_of_not_ended hnot] at h
  cases h

section
variable {runs : Nat → Runner Console} {clock : Nat → Binary64} {n limit : Nat}
  (hruns : ∀ n, runs (n + 1) = Session.feed interval (runs n) (clock n))
include hruns

theorem ending_of_tick {e : Ending} (hstart : (runs 0).readings = 0) (hn : n < limit)
    (hticks : TicksAt runs n) (he : endOfTick (runs n) (clock n) = some e) :
    endingOf (runs limit).phase = e ∧ (runs limit).readings = n + 1 := by
  obtain ⟨hlast, hending⟩ := last_of_tick hruns hticks he hn
  have hrunning : (runs n).ended = false := ended_of_ready hticks
  refine ⟨hending, ?_⟩
  rw [hlast, readings_tick, (feeding_feed interval).readings_of_not_ended hruns hstart hrunning]

theorem ending_of_running (hfirst : TicksAt runs 0) (hstart : (runs 0).readings = 0)
    (hrunning : ∀ n < limit, TicksAt runs n → endOfTick (runs n) (clock n) = none) :
    endingOf (runs limit).phase = .clockStopped ∧ (runs limit).readings = limit := by
  have hnot : (runs limit).ended = false := by
    rw [Bool.eq_false_iff]
    intro hended
    obtain ⟨n, hn, hticks, e, he⟩ := exists_of_ended hruns hfirst hended
    rw [hrunning n hn hticks] at he
    cases he
  exact ⟨endingOf_of_not_ended hnot,
    (feeding_feed interval).readings_of_not_ended hruns hstart hnot⟩

theorem step_of_ending {f : Machine.Fault} (hfirst : TicksAt runs 0)
    (h : endingOf (runs limit).phase = .faulted (.machine f)) :
    ∃ m : Machine, m.step.fault = some f ∧ (runs limit).loop.machine = m.step.machine := by
  obtain ⟨n, hn, hticks, e, he⟩ := exists_of_ended hruns hfirst (ended_of_endingOf h)
  obtain ⟨hlast, hending⟩ := last_of_tick hruns hticks he hn
  rw [h] at hending
  subst hending
  obtain ⟨hwhole, hv⟩ := tick_of_faulted interval he
  rw [hlast, hwhole, loop_tick]
  exact step_of_faulted hv

end

/-- A session is a run on the readings of its clock, and then it is closed. -/
theorem run_of_ready {ready : Ready} (hready : (start installed read o s random).result = .ok ready)
    (clock : Clock) : run installed read o s random clock =
      close (start installed read o s random).calls
        (Session.along (stepInterval standardSpeed) clock.shows
          (.start Console.host ready.machine ready.console) clock.limit) := by
  have hrun := feedFrom_eq_along (stepInterval standardSpeed) clock
    (.start Console.host ready.machine ready.console) clock.limit 0
  rw [Nat.zero_add] at hrun
  rw [← hrun]
  simp only [run, hready]
  rfl

/-- Once a session has come as far as running, its front end is closed once, by its last calls:
first the sound, then the keyboard, which takes no call, then the display. That is so for every
front end and every clock of the loop, whatever the host answers and whenever, and whenever and
however the loop ends. The first tick that ends the session says how, and no more readings are
made; if none does, the loop's clock stops. A fault of the machine that ends the session is the one
of its last step. `run` is the session on a clock that advances evenly. -/
theorem closes_once (installed : Installed)
    (read : ProgramFile → Except Rom.Fault (List UInt8)) (o : Options) (s : Surroundings)
    (random : Nat → Int) (clock : Nat → Binary64) (limit : Nat) {ready : Ready}
    (hready : (start installed read o s random).result = .ok ready) :
    let runs := Session.along (stepInterval standardSpeed) clock
      (.start Console.host ready.machine ready.console)
    let opening := (start installed read o s random).calls
    let working := (runs limit).host.calls.toList
    let report := close opening (runs limit)
    (∃ kind, chooseKind installed o.renderer = .ok kind ∧
      report.calls = opening ++ working ++ closing o.mute kind) ∧
    (∀ call ∈ opening ++ working, closes call = false) ∧
    (∀ n < limit, TicksAt runs n → ∀ e, endOfTick (runs n) (clock n) = some e →
      report.ending = e ∧ report.readings = n + 1) ∧
    ((∀ n < limit, TicksAt runs n → endOfTick (runs n) (clock n) = none) →
      report.ending = .clockStopped ∧ report.readings = limit) ∧
    (∀ f, report.ending = .faulted (.machine f) →
      ∃ m : Machine, m.step.fault = some f ∧ (runs limit).loop.machine = m.step.machine) ∧
    (∀ even : Clock, clock = even.shows → limit = even.limit →
      run installed read o s random even = report) := by
  intro runs opening working report
  have hruns : ∀ n, runs (n + 1) =
      Session.feed (stepInterval standardSpeed) (runs n) (clock n) := fun _ => rfl
  obtain ⟨kind, f, hkind, hf, hconsole⟩ := frontEnd_of_start hready
  have hworking : Working f.closing (runs limit).host := by
    apply Working.along
    rw [hconsole]
    exact working_start f s ready.machine
  refine ⟨⟨kind, hkind, ?_⟩, ?_, ?_, ?_, ?_, ?_⟩
  · change opening ++ (runs limit).host.close.calls.toList = _
    rw [Console.calls_close, hworking.closing, closing_openFrontEnd hf, List.append_assoc]
  · refine List.forall_mem_append.mpr ⟨?_, hworking.unclosed⟩
    exact fun _ => not_closes_calls_start
  · exact fun n hn hticks e he => ending_of_tick hruns rfl hn hticks he
  · exact fun hrunning => ending_of_running hruns rfl rfl hrunning
  · exact fun fault hfault => step_of_ending hruns rfl hfault
  · rintro even rfl rfl
    exact run_of_ready hready even

/-- Asks for nothing in particular, so for a window with sound. -/
def plainly : Options :=
  ⟨.given (.path "rom.ch8"), .unset, .unset, .unset, .given Keymap.standard, .given false⟩

/-- The window is closed before it is looked at for the first time. -/
def closedWindow : Surroundings := { Surroundings.quiet 0x1000 with batches := [[.quit]] }

theorem starts_closedWindow :
    ∃ ready, (start ⟨true, false⟩ readable plainly closedWindow fun _ => 0).result = .ok ready := by
  have hstarts :
    (start ⟨true, false⟩ readable plainly closedWindow fun _ => 0).result.isOk = true := rfl
  cases hready : (start ⟨true, false⟩ readable plainly closedWindow fun _ => 0).result with
  | ok ready => exact ⟨ready, rfl⟩
  | error fault =>
    rw [hready] at hstarts
    cases hstarts

theorem endOfTick_closedWindow {ready : Ready}
    (h : (start ⟨true, false⟩ readable plainly closedWindow random).result = .ok ready) :
    endOfTick (.start Console.host ready.machine ready.console) 0 = some .quit := by
  obtain ⟨kind, f, hkind, hf, hconsole⟩ := frontEnd_of_start h
  cases hkind
  rw [hconsole]
  obtain ⟨d, k, b, rfl⟩ : ∃ d k b, f = .window d k b := by
    simp only [openFrontEnd, openWindow, result_bind_eq_ok, result_ofExcept_eq_ok] at hf
    obtain ⟨_, _, _, _, _, _, _, _, _, _, hf⟩ := hf
    split at hf
    · exact ⟨_, _, _, (result_pure_eq_ok.mp hf).symm⟩
    · obtain ⟨_, _, hf⟩ := result_bind_eq_ok.mp hf
      exact ⟨_, _, _, (result_pure_eq_ok.mp hf).symm⟩
  exact endOfTick_of_quit rfl (Runner.verdict_eq_quit_iff.mpr ⟨rfl, rfl⟩)

theorem closes_once_closedWindow :
    let report := run ⟨true, false⟩ readable plainly closedWindow (fun _ => 0) ⟨0, 0, 3⟩
    (∃ ready, (start ⟨true, false⟩ readable plainly closedWindow fun _ => 0).result = .ok ready) ∧
    report.ending = .quit ∧ report.readings = 1 ∧
    ∃ before, report.calls =
      before ++ [.window .stopSound, .window .closeMixer, .window .closeDisplay] := by
  intro report
  obtain ⟨ready, hready⟩ := starts_closedWindow
  let clock : Clock := ⟨0, 0, 3⟩
  obtain ⟨⟨kind, hkind, hcalls⟩, _, hends, _, _, heven⟩ :=
    closes_once ⟨true, false⟩ readable plainly closedWindow (fun _ => 0) clock.shows 3 hready
  cases hkind
  obtain ⟨hending, hreadings⟩ :=
    hends 0 (Nat.zero_lt_succ 2) rfl .quit (endOfTick_closedWindow hready)
  rw [← heven clock rfl rfl] at hending hreadings hcalls
  exact ⟨⟨ready, hready⟩, hending, hreadings, _, hcalls⟩

end Session

end Chip8
