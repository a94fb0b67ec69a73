import Chip8.FrontEnd
import Chip8.Machine.Boot
import Chip8.Proofs.HostLoop.Picture
import Chip8.Proofs.HostLoop.Run
import Chip8.Proofs.Terminal.Pad

/-! # When a picture reaches the terminal

A picture is written to the pad and becomes visible when the pad is pushed. A refresh pushes it if
the terminal has the size it had at the refresh before, and otherwise clears the screen and leaves
the push to the next refresh. The loop refreshes only to show a changed picture, so a picture that
comes with a change of the size stays in the pad until another one is drawn; so does the first. -/

namespace Chip8

/-! ## Sizes -/

namespace Surroundings

variable {s s' : Surroundings} {n : Nat}

/-- The size that the terminal has when it is asked for the `n`th time, counted from zero. -/
def sizeAt (s : Surroundings) (n : Nat) : Int × Int := s.sizes.getD n s.finalSize

/-- The size that the terminal had the time before; no size the first time. -/
def sizeBefore (s : Surroundings) : Nat → Int × Int
  | 0 => (-1, -1)
  | n + 1 => s.sizeAt n

/-- What is left of the sizes once `n` of them are used. -/
def SizesLeft (s : Surroundings) (n : Nat) (s' : Surroundings) : Prop :=
  s'.sizes = s.sizes.drop n ∧ s'.finalSize = s.finalSize

theorem SizesLeft.takeSize (h : s.SizesLeft n s') :
    s'.takeSize.1 = s.sizeAt n ∧ s.SizesLeft (n + 1) s'.takeSize.2 := by
  obtain ⟨hsizes, hfinal⟩ := h
  have hrest : s.sizes.drop (n + 1) = s'.sizes.tail := by rw [hsizes, List.tail_drop]
  have hhead : s.sizes[n]? = s'.sizes.head? := by rw [hsizes, List.head?_drop]
  unfold Surroundings.takeSize SizesLeft sizeAt
  rw [hrest, List.getD_eq_getElem?_getD, hhead, ← hfinal]
  cases hs : s'.sizes with
  | nil => exact ⟨rfl, hs, rfl⟩
  | cons size rest => exact ⟨rfl, rfl, rfl⟩

theorem SizesLeft.takeKeyTimes (h : s.SizesLeft n s') (t : Binary64) :
    s.SizesLeft n (s'.takeKeyTimes t).2 := by
  unfold Surroundings.takeKeyTimes
  split <;> exact h

theorem SizesLeft.takeBellTime (h : s.SizesLeft n s') (t : Binary64) :
    s.SizesLeft n (s'.takeBellTime t).2 := by
  unfold Surroundings.takeBellTime
  split <;> exact h

end Surroundings

namespace Terminal

open HostLoop Machine

/-! ## Calls -/

/-- Whether the pad has been pushed since it was last written to. -/
def pushedAfter (before : Bool) : HostCall → Bool
  | .terminal (.pushPad _ _) => true
  | .terminal (.writePad _ _ _ _) => false
  | _ => before

/-- Whether nothing has been written to the pad since it was last pushed. -/
def pushed (calls : List HostCall) : Bool := calls.foldl pushedAfter true

/-- A refresh for a changed picture ends in one of these two calls. -/
def endsRefresh : HostCall → Bool
  | .terminal (.pushPad _ _) | .terminal .refreshScreen => true
  | _ => false

/-- How often a changed picture was to be shown. -/
def refreshes (calls : List HostCall) : Nat := calls.countP endsRefresh

/-! ## Requests -/

/-- A console in a terminal that was refreshed `n` times, and whether its pad is pushed. -/
structure Tracks (s : Surroundings) (n : Nat) (shown : Bool) (c : Console) : Prop where
  frontEnd : ∃ d i b, c.frontEnd = .terminal d i b ∧ d.lastSize = s.sizeBefore n
  sizesLeft : s.SizesLeft n c.surroundings
  count : refreshes c.calls.toList = n
  seen : pushed c.calls.toList = shown

variable {s : Surroundings} {n : Nat} {shown : Bool} {c : Console} {t : Binary64}

theorem Tracks.note (hc : Tracks s n shown c) {m : Nat} {d : Display}
    {i : Input} {b : Option Bell} {s' : Surroundings} (stopped : Bool)
    (made : List Call) (hsize : d.lastSize = s.sizeBefore m) (hleft : s.SizesLeft m s')
    (hm : n + refreshes (made.map .terminal) = m) :
    Tracks s m ((made.map HostCall.terminal).foldl pushedAfter shown)
      (Console.noteTerminal ⟨.terminal d i b, s', c.calls, stopped⟩ made) where
  frontEnd := ⟨d, i, b, rfl, hsize⟩
  sizesLeft := hleft
  count := by
    rw [Console.noteTerminal, Array.toList_appendList, refreshes, List.countP_append, ← hm,
      ← hc.count]
    rfl
  seen := by
    rw [Console.noteTerminal, Array.toList_appendList, pushed, List.foldl_append, ← hc.seen]
    rfl

theorem Tracks.title (hc : Tracks s n shown c) (t : Binary64) (text : String) :
    Tracks s n false (c.handle t (.title text)) := by
  obtain ⟨d, i, b, hf, hsize⟩ := hc.frontEnd
  obtain ⟨f, s', calls, stopped⟩ := c
  cases hf
  exact hc.note stopped (d.setTitle text).2 hsize hc.sizesLeft rfl

theorem Tracks.pixel (hc : Tracks s n shown c) (t : Binary64) (w : Screen.PixelWrite) :
    Tracks s n false (c.handle t (.pixel w)) := by
  obtain ⟨d, i, b, hf, hsize⟩ := hc.frontEnd
  obtain ⟨f, s', calls, stopped⟩ := c
  cases hf
  exact hc.note stopped (d.setPixel w.x w.y w.lit) hsize hc.sizesLeft rfl

/-- A bell is rung or not, and only its clock is read. -/
theorem ring_cases (t : Binary64) (s : Surroundings) (b : Option Bell) :
    ((Console.ring t s b).2.1 = s ∨ (Console.ring t s b).2.1 = (s.takeBellTime t).2) ∧
      ((Console.ring t s b).2.2.getD [] = [] ∨ (Console.ring t s b).2.2.getD [] = [.bell]) := by
  cases b with
  | none => exact ⟨Or.inl rfl, Or.inl rfl⟩
  | some b =>
    unfold Console.ring
    rcases s.takeBellTime t with ⟨_ | time, s'⟩
    · exact ⟨Or.inr rfl, Or.inl rfl⟩
    · refine ⟨Or.inr rfl, ?_⟩
      simp only [Bell.beep, Option.getD_some]
      split
      · exact Or.inr rfl
      · exact Or.inl rfl

theorem Tracks.beep (hc : Tracks s n shown c) (t : Binary64) :
    Tracks s n shown (c.handle t .beep) := by
  obtain ⟨d, i, b, hf, hsize⟩ := hc.frontEnd
  obtain ⟨f, s', calls, stopped⟩ := c
  cases hf
  obtain ⟨hs, hr⟩ := ring_cases t s' b
  have hleft : s.SizesLeft n (Console.ring t s' b).2.1 := by
    rcases hs with hs | hs <;> rw [hs]
    · exact hc.sizesLeft
    · exact hc.sizesLeft.takeBellTime t
  have hnoted := hc.note (i := i) (b := (Console.ring t s' b).1)
    (stopped || (Console.ring t s' b).2.2.isNone) ((Console.ring t s' b).2.2.getD []) hsize hleft
  have hcalls : refreshes (((Console.ring t s' b).2.2.getD []).map .terminal) = 0 ∧
      (((Console.ring t s' b).2.2.getD []).map HostCall.terminal).foldl pushedAfter shown =
        shown := by
    rcases hr with hr | hr <;> rw [hr] <;> exact ⟨rfl, rfl⟩
  rw [hcalls.1, hcalls.2] at hnoted
  exact hnoted rfl

theorem refresh_changed (d : Display) (size : Int × Int) (shown : Bool) :
    refreshes ((d.refresh true size).2.map .terminal) = 1 ∧
      ((d.refresh true size).2.map HostCall.terminal).foldl pushedAfter shown =
        (shown || decide (size = d.lastSize)) := by
  rcases d.refresh_cases true size with ⟨hsame, _, h⟩ | ⟨_, _, hchanged, _⟩ | ⟨hother, h⟩
  · rw [h, decide_eq_true hsame, Bool.or_true]
    exact ⟨rfl, rfl⟩
  · cases hchanged
  · rw [h, decide_eq_false hother, Bool.or_false]
    cases d.resizable <;> exact ⟨rfl, rfl⟩

/-- A refresh pushes the pad unless the size has changed since the refresh before. -/
theorem Tracks.refresh (hc : Tracks s n shown c) (t : Binary64) :
    Tracks s (n + 1) (shown || decide (s.sizeAt n = s.sizeBefore n)) (c.handle t .refresh) := by
  obtain ⟨d, i, b, hf, hsize⟩ := hc.frontEnd
  obtain ⟨f, s', calls, stopped⟩ := c
  cases hf
  obtain ⟨htaken, hleft⟩ := hc.sizesLeft.takeSize
  have hlast := d.lastSize_refresh true (s.sizeAt n)
  obtain ⟨hcount, hseen⟩ := refresh_changed d (s.sizeAt n) shown
  have hnoted := hc.note (i := i) (b := b) stopped (d.refresh true (s.sizeAt n)).2 hlast hleft
    (congrArg (n + ·) hcount)
  rw [hseen, hsize, ← htaken] at hnoted
  rw [← htaken]
  exact hnoted

/-! ## Runs -/

theorem Tracks.handle_of_ne (hc : ∃ shown, Tracks s n shown c) (t : Binary64)
    {request : Request} (hne : request ≠ .refresh) :
    ∃ shown, Tracks s n shown (c.handle t request) := by
  obtain ⟨shown, hc⟩ := hc
  cases request with
  | title text => exact ⟨_, hc.title t text⟩
  | pixel w => exact ⟨_, hc.pixel t w⟩
  | refresh => exact absurd rfl hne
  | beep => exact ⟨_, hc.beep t⟩

theorem Tracks.poll (hc : Tracks s n shown c) (t : Binary64) : Tracks s n shown (c.poll t).2 := by
  obtain ⟨d, i, b, hf, hsize⟩ := hc.frontEnd
  obtain ⟨f, s', calls, stopped⟩ := c
  cases hf
  exact ⟨⟨d, _, b, rfl, hsize⟩, hc.sizesLeft.takeKeyTimes t, hc.count, hc.seen⟩

variable {r : Runner Console} {interval : Option Binary64}

theorem Tracks.tick_of_not_asked (hr : ∃ shown, Tracks s n shown r.host)
    (hasked : .refresh ∉ (r.loop.tick t (r.input Console.host t).1).requests) :
    ∃ shown, Tracks s n shown (r.tick Console.host interval t).host := by
  rw [Runner.host_tick]
  apply Runner.handleAll_of_keeps (P := fun c => ∃ shown, Tracks s n shown c)
  · intro request hmem c hc
    apply Tracks.handle_of_ne hc t
    rintro rfl
    exact hasked hmem
  · apply Runner.input_of_keeps (P := fun c => ∃ shown, Tracks s n shown c) _ hr
    rintro c ⟨shown, hc⟩
    exact ⟨shown, hc.poll t⟩

/-- A whole picture reaches the screen unless the size has changed. -/
theorem Tracks.render {m : Machine} (hm : Invariant m) (hc : Tracks s n shown c) (t : Binary64) :
    Tracks s (n + 1) (decide (s.sizeAt n = s.sizeBefore n))
      (Runner.handleAll Console.host t m.screen.render c) := by
  have hcorner : (⟨0, 0, m.screen.lit 0 0⟩ : Screen.PixelWrite) ∈ m.screen.pixelWrites := by
    rw [Screen.mem_pixelWrites, hm.width, hm.height]
    exact ⟨by simp, by simp, rfl⟩
  obtain ⟨w, rest, hwrites⟩ := List.exists_cons_of_ne_nil (List.ne_nil_of_mem hcorner)
  -- There are pixels, so the pad is written to whatever was pushed before.
  have hwritten : Tracks s n false
      (Runner.handleAll Console.host t ((w :: rest).map .pixel) c) := by
    rw [List.map_cons, Runner.handleAll_cons]
    apply Runner.handleAll_of_keeps (P := Tracks s n false)
    · intro request hmem c hc
      obtain ⟨w', _, rfl⟩ := List.mem_map.mp hmem
      exact hc.pixel t w'
    · exact hc.pixel t w
  rw [Screen.render, hwrites, Runner.handleAll_append]
  exact hwritten.refresh t

/-- In a tick that shows a picture nothing is written to the pad after the refresh. -/
theorem Tracks.shownBy (hm : Invariant r.loop.machine) (hr : Tracks s n shown r.host)
    (hasked : .refresh ∈ (r.loop.tick t (r.input Console.host t).1).requests) :
    Tracks s (n + 1) (decide (s.sizeAt n = s.sizeBefore n))
      (r.tick Console.host interval t).host := by
  obtain ⟨hpoll, hquit, hup⟩ := refresh_mem_requests_iff.mp hasked
  have hpolled : Tracks s n shown (r.input Console.host t).2 :=
    Runner.input_of_keeps (fun c hc => hc.poll t) hr
  -- A title is written to the pad as well, but before the picture.
  obtain ⟨_, htitled⟩ : ∃ shown', Tracks s n shown'
      (Runner.handleAll Console.host t (r.loop.report t).2 (r.input Console.host t).2) := by
    apply Runner.handleAll_of_keeps (P := fun c => ∃ shown', Tracks s n shown' c)
    · intro request hmem c ⟨_, hc⟩
      obtain ⟨text, rfl⟩ := titles_report hmem
      exact ⟨false, hc.title t text⟩
    · exact ⟨shown, hpolled⟩
  rw [Runner.host_tick, tick_of_poll hpoll hquit, requests_stepMachine, requests_attend,
    HostLoop.frame, if_pos hup, Runner.handleAll_append, Runner.handleAll_append]
  apply Runner.handleAll_of_keeps
  · intro request hmem c hc
    rw [List.eq_of_mem_replicate hmem]
    exact hc.beep t
  · exact htitled.render hm t

theorem Tracks.tick (hm : Invariant r.loop.machine) (hr : ∃ n shown, Tracks s n shown r.host) :
    ∃ n shown, Tracks s n shown (r.tick Console.host interval t).host := by
  obtain ⟨n, hr⟩ := hr
  by_cases hasked : .refresh ∈ (r.loop.tick t (r.input Console.host t).1).requests
  · obtain ⟨_, hr⟩ := hr
    exact ⟨_, _, hr.shownBy hm hasked⟩
  · exact ⟨n, Tracks.tick_of_not_asked hr hasked⟩

/-- The title is written as soon as the loop is built. -/
theorem Tracks.start {d : Display} (hd : d.lastSize = (-1, -1)) (i : Input)
    (b : Option Bell) (m : Machine) :
    Tracks s 0 false
      (Runner.start Console.host m (Console.ofFrontEnd (.terminal d i b) s)).host := by
  have hopened : Tracks s 0 true (Console.ofFrontEnd (.terminal d i b) s) :=
    ⟨⟨d, i, b, rfl, hd⟩, ⟨rfl, rfl⟩, rfl, rfl⟩
  exact hopened.title 0 _

/-- In whatever run on a terminal, a tick that shows a picture leaves it in the pad, not pushed, if
and only if the terminal's size is another than at the refresh before. That is so whatever the
reader has read by then, whatever is typed during the run, at any moment of it, and whatever the
clocks of the keyboard and of the bell show. -/
theorem pad_pushed_iff (program : List UInt8) (live : Bool) (random : Nat → Int)
    (s : Surroundings) {wanted : Setting Extent} {mode : CursorMode}
    {d : Display} (i : Input) (b : Option Bell)
    (hopen : (Display.open? s.room wanted mode s.resizable).1 = .ok d)
    (interval : Option Binary64) (readings : List Binary64) (t : Binary64) :
    let console := Console.ofFrontEnd (.terminal (d.setResolution 64 32).1 i b) s
    let r := Runner.run Console.host interval readings
      (Runner.start Console.host (boot program live random) console)
    let n := refreshes r.host.calls.toList
    .refresh ∈ (r.loop.tick t (r.input Console.host t).1).requests →
      refreshes (r.tick Console.host interval t).host.calls.toList = n + 1 ∧
        (pushed (r.tick Console.host interval t).host.calls.toList = true ↔
          s.sizeAt n = s.sizeBefore n) := by
  intro console r n hasked
  have hd : (d.setResolution 64 32).1.lastSize = (-1, -1) := Display.lastSize_open (d := d) hopen
  have hrun : Invariant r.loop.machine ∧ ∃ n shown, Tracks s n shown r.host := by
    apply Runner.run_of_tick
      (P := fun l c => Invariant l.machine ∧ ∃ n shown, Tracks s n shown c)
    · rintro r t ⟨hm, hr⟩
      exact ⟨Runner.invariant_tick hm, Tracks.tick hm hr⟩
    · exact ⟨boot_invariant program live random, 0, false, Tracks.start hd i b _⟩
  obtain ⟨hm, n', shown, hr⟩ := hrun
  have hn : n = n' := hr.count
  rw [hn]
  have hafter : Tracks s (n' + 1) _ (r.tick Console.host interval t).host :=
    hr.shownBy hm hasked
  rw [hafter.count, hafter.seen, decide_eq_true_iff]
  exact ⟨rfl, Iff.rfl⟩

/-- Nothing was typed, and nothing is going to be. -/
def Idle (c : Console) : Prop :=
  (∃ d i b, c.frontEnd = .terminal d i b ∧ i.keyboard.queue = []) ∧ c.surroundings.typed = []

theorem Idle.handle (hc : Idle c) (t : Binary64) (request : Request) :
    Idle (c.handle t request) := by
  obtain ⟨⟨d, i, b, hf, hi⟩, htyped⟩ := hc
  obtain ⟨f, s', calls, stopped⟩ := c
  cases hf
  cases request with
  | beep =>
    refine ⟨⟨d, i, _, rfl, hi⟩, ?_⟩
    change (Console.ring t s' b).2.1.typed = []
    rcases (ring_cases t s' b).1 with hs | hs <;> rw [hs]
    · exact htyped
    · unfold Surroundings.takeBellTime
      split <;> exact htyped
  | refresh =>
    refine ⟨⟨_, i, b, rfl, hi⟩, ?_⟩
    change s'.takeSize.2.typed = []
    unfold Surroundings.takeSize
    split <;> exact htyped
  | title _ | pixel _ => exact ⟨⟨_, i, b, rfl, hi⟩, htyped⟩

theorem Idle.poll (hc : Idle c) (t : Binary64) :
    (c.poll t).1.quit = false ∧ Idle (c.poll t).2 := by
  obtain ⟨⟨d, i, b, hf, hi⟩, htyped⟩ := hc
  obtain ⟨f, s', calls, stopped⟩ := c
  cases hf
  have hvisit : ∀ time, i.visit time [] = (false, i, []) := by
    intro time
    simp [Input.visit, Keyboard.process, Keyboard.drain, Keyboard.take?, hi]
  have hturns : (s'.takeKeyTimes t).2.typed = [] := by
    unfold Surroundings.takeKeyTimes
    split <;> exact htyped
  simp only [Console.poll, hturns, hvisit]
  exact ⟨trivial, ⟨d, i, b, rfl, hi⟩, rfl⟩

/-- A run that is ready to clear the screen. -/
structure Clears (r : Runner Console) (a : Nat) : Prop where
  reachable : Reachable r.loop.machine
  pc : r.loop.machine.pc = a
  room : a + 2 ≤ 0x1000
  high : r.loop.machine.memory.byteAt a = 0x00
  low : r.loop.machine.memory.byteAt (a + 1) = 0xE0
  idle : Idle r.host
  ready : r.phase = .ready

theorem Clears.step {a : Nat} (hr : Clears r a) (held : Vector Bool 16) :
    let out := ((r.loop.machine.setKeys held).withRedraw false).step
    out.fault = none ∧ out.machine.pc = a + 2 ∧ out.machine.memory = r.loop.machine.memory ∧
      out.machine.screen.redraw = true := by
  intro out
  have hm := (hr.reachable.act (.setKeys held)).act .consumeRedraw
  obtain ⟨_, _, hs⟩ := hm.step_of_bytes a .clear hr.pc hr.room hr.high hr.low rfl
  have hout : out = _ := hs
  rw [hout]
  exact ⟨rfl, congrArg (· + 2) hr.pc, rfl, rfl⟩

/-- A tick that polls clears the screen; before that it asks for the picture if the flag is up. -/
theorem Clears.tick {a : Nat} (hr : Clears r a) {q : Rat}
    (hdue : r.loop.nextDisplay.le (.finite q) = true) (hroom : a + 4 ≤ 0x1000)
    (hhigh : r.loop.machine.memory.byteAt (a + 2) = 0x00)
    (hlow : r.loop.machine.memory.byteAt (a + 3) = 0xE0) :
    let r' := r.tick Console.host none (.finite q)
    (r.loop.machine.screen.redraw = true →
        .refresh ∈ (r.loop.tick (.finite q) (r.input Console.host (.finite q)).1).requests) ∧
      Clears r' (a + 2) ∧ r'.loop.machine.memory = r.loop.machine.memory ∧
      r'.loop.machine.screen.redraw = true ∧
      r'.loop.nextDisplay = (Binary64.finite q).add displayInterval := by
  intro r'
  have hpoll : r.loop.tickPolls (.finite q) = true := by
    simp [tickPolls, failsToReport, polls, hdue, Binary64.integerPart?]
  have hinput : r.input Console.host (.finite q) = r.host.poll (.finite q) := if_pos hpoll
  obtain ⟨hquit, hidle⟩ := hr.idle.poll (.finite q)
  rw [← hinput] at hquit hidle
  have htick := tick_of_poll hpoll hquit
  obtain ⟨hfault, hpc, hmemory, hflag⟩ := hr.step (r.input Console.host (.finite q)).1.held
  have hmachine : r'.loop.machine = ((r.loop.machine.setKeys
      (r.input Console.host (.finite q)).1.held).withRedraw false).step.machine := by
    rw [Runner.loop_tick, htick, machine_stepMachine, machine_attend]
  have hverdict : (r.loop.tick (.finite q) (r.input Console.host (.finite q)).1).verdict =
      .running := by
    rw [htick, verdict_stepMachine, machine_attend, hfault]
    rfl
  rw [← hmachine] at hpc hmemory hflag
  refine ⟨?_, ⟨?_, hpc, hroom, ?_, ?_, ?_, ?_⟩, hmemory, hflag, ?_⟩
  · exact fun hup => refresh_mem_requests_iff.mpr ⟨hpoll, hquit, hup⟩
  · rw [hmachine]
    exact ((hr.reachable.act (.setKeys _)).act .consumeRedraw).act .step
  · rw [hmemory]
    exact hhigh
  · rw [hmemory]
    exact hlow
  · exact Runner.handleAll_of_keeps (P := Idle) (fun request _ c hc => hc.handle _ request) hidle
  · simp only [r', Runner.tick, hverdict]
  · rw [Runner.loop_tick, htick, nextDisplay_stepMachine, nextDisplay_attend]

def clearings : List UInt8 := [0x00, 0xE0, 0x00, 0xE0, 0x00, 0xE0, 0x00, 0xE0]

/-- Ticks at the times one and two; those at two and three show a picture. -/
theorem Clears.twice (hr : Clears r 0x200)
    (hb : ∀ a, r.loop.machine.memory.byteAt a = Rom.imageAt clearings a)
    (hnext : r.loop.nextDisplay = 0) :
    let r1 := r.tick Console.host none (.finite 1)
    let r2 := r1.tick Console.host none (.finite 2)
    (r1.phase = .ready ∧
        .refresh ∈ (r1.loop.tick (.finite 2) (r1.input Console.host (.finite 2)).1).requests) ∧
      r2.phase = .ready ∧
        .refresh ∈ (r2.loop.tick (.finite 3) (r2.input Console.host (.finite 3)).1).requests := by
  intro r1 r2
  have hdue : r.loop.nextDisplay.le (.finite 1) = true := by
    rw [hnext]
    decide
  obtain ⟨_, h1, hb1, hflag1, hnext1⟩ := hr.tick hdue (by decide) (hb _) (hb _)
  replace hb := fun a => (congrArg (Memory.byteAt · a) hb1).trans (hb a)
  have hdue1 : r1.loop.nextDisplay.le (.finite 2) = true := by
    rw [hnext1]
    decide +kernel
  obtain ⟨hasked1, h2, hb2, hflag2, hnext2⟩ := h1.tick hdue1 (by decide) (hb _) (hb _)
  replace hb := fun a => (congrArg (Memory.byteAt · a) hb2).trans (hb a)
  have hdue2 : r2.loop.nextDisplay.le (.finite 3) = true := by
    rw [hnext2]
    decide +kernel
  obtain ⟨hasked2, _⟩ := h2.tick hdue2 (by decide) (hb _) (hb _)
  exact ⟨⟨h1.ready, hasked1 hflag1⟩, h2.ready, hasked2 hflag2⟩

def plainInput : Input := .ofKeyboard (.ofKeymap ⟨.ofFn fun k => (k : Int), by decide⟩)

/-- A terminal whose size stays. -/
def plainConsole : Console :=
  .ofFrontEnd (.terminal (Display.untouched.setResolution 64 32).1 plainInput none)
    (.quiet 0x1000)

theorem clears_start {m : Machine} (hm : Reachable m) (hpc : m.pc = 0x200)
    (hb : ∀ a, m.memory.byteAt a = Rom.imageAt clearings a) :
    Clears (.start Console.host m plainConsole) 0x200 where
  reachable := hm
  pc := hpc
  room := by decide
  high := hb 0x200
  low := hb 0x201
  idle := ⟨⟨_, _, _, rfl, rfl⟩, rfl⟩
  ready := rfl

/-- The second picture is pushed: the terminal has kept its size. -/
theorem second_picture_pushed :
    let r := Runner.run Console.host none [.finite 1, .finite 2]
      (.start Console.host (boot clearings false fun _ => 0) plainConsole)
    (Display.open? 0x1000 .unset .hidden true).1 = .ok .untouched ∧
      .refresh ∈ (r.loop.tick (.finite 3) (r.input Console.host (.finite 3)).1).requests ∧
      pushed (r.tick Console.host none (.finite 3)).host.calls.toList = true := by
  have hopen : (Display.open? 0x1000 .unset .hidden true).1 = .ok .untouched :=
    Display.open_untouched (by decide)
  have fits : clearings.length ≤ Rom.maxLength := by decide
  have hstart := clears_start (.boot false (fun _ => 0) fits) rfl (byteAt_boot fits _ _)
  have hb := byteAt_boot fits false fun _ => 0
  have hfirst := pad_pushed_iff clearings false (fun _ => 0) (.quiet 0x1000)
    plainInput none hopen none [.finite 1] (.finite 2)
  have hsecond := pad_pushed_iff clearings false (fun _ => 0) (.quiet 0x1000)
    plainInput none hopen none [.finite 1, .finite 2] (.finite 3)
  revert hstart hb hfirst hsecond
  generalize boot clearings false (fun _ => 0) = m
  intro hstart hb hfirst hsecond r
  obtain ⟨⟨hready, hasked1⟩, _, hasked2⟩ := hstart.twice hb rfl
  have hrun1 : Runner.run Console.host none [.finite 1] (.start Console.host m plainConsole) =
    (Runner.start Console.host m plainConsole).tick Console.host none (.finite 1) :=
    Runner.run_cons_of_ready hstart.ready []
  rw [← hrun1] at hready hasked1 hasked2
  have hrun2 : r = (Runner.run Console.host none [.finite 1]
      (.start Console.host m plainConsole)).tick Console.host none (.finite 2) := by
    unfold r
    rw [Runner.run_cons_of_ready hstart.ready, ← hrun1, Runner.run_cons_of_ready hready]
    rfl
  rw [← hrun2] at hasked2
  -- The first picture was a refresh, which found the size that counts.
  obtain ⟨n, hcount⟩ : ∃ n, refreshes r.host.calls.toList = n + 1 := by
    rw [hrun2]
    exact ⟨_, (hfirst hasked1).1⟩
  have hsize : (Surroundings.quiet 0x1000).sizeAt (refreshes r.host.calls.toList) =
      (Surroundings.quiet 0x1000).sizeBefore (refreshes r.host.calls.toList) := by
    rw [hcount]
    rfl
  exact ⟨hopen, hasked2, (hsecond hasked2).2.mpr hsize⟩

/-- The first picture is not pushed: before it the terminal has not been asked for its size. -/
theorem first_picture_not_pushed :
    let r := Runner.run Console.host none [.finite 1]
      (.start Console.host (boot clearings false fun _ => 0) plainConsole)
    .refresh ∈ (r.loop.tick (.finite 2) (r.input Console.host (.finite 2)).1).requests ∧
      pushed (r.tick Console.host none (.finite 2)).host.calls.toList = false := by
  have fits : clearings.length ≤ Rom.maxLength := by decide
  have hm : Reachable (boot clearings false fun _ => 0) := .boot _ _ fits
  have hb := byteAt_boot fits false fun _ => 0
  have hstart := clears_start hm rfl hb
  have hflag : (boot clearings false fun _ => 0).screen.redraw = false := rfl
  revert hstart hb hm hflag
  generalize boot clearings false (fun _ => 0) = m
  intro hm hb hstart hflag r
  obtain ⟨⟨_, hasked⟩, _⟩ := hstart.twice hb rfl
  have hrun : r = (Runner.start Console.host m plainConsole).tick Console.host none (.finite 1) :=
    Runner.run_cons_of_ready hstart.ready []
  rw [← hrun] at hasked
  obtain ⟨shown, hfirst⟩ : ∃ shown, Tracks (.quiet 0x1000) 0 shown r.host := by
    rw [hrun]
    apply Tracks.tick_of_not_asked ⟨false, Tracks.start rfl _ _ m⟩
    rw [refresh_mem_requests_iff]
    rintro ⟨_, _, hup⟩
    exact Bool.false_ne_true (hflag.symm.trans hup)
  have hinv : Invariant r.loop.machine := by
    rw [hrun]
    exact Runner.invariant_tick hm.invariant
  exact ⟨hasked, (hfirst.shownBy hinv hasked).seen⟩

end Terminal

end Chip8
