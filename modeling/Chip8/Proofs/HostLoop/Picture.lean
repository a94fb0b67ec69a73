import Chip8.Proofs.HostLoop.Tick
import Chip8.Proofs.Screen.Writes

/-! # The picture that the host has been given

The host keeps the colour that it was last given for each point. Whenever the redraw flag is down,
these colours are those of the screen, and they are whenever a tick that polled comes to step the
machine. So no change of the picture is lost, whatever the machine does in between and however
ticks end. -/

namespace Chip8.HostLoop

open Machine Screen

/-- The colour of a point after a request, if it was `lit` before. -/
def colourAfter (x y : Int) (lit : Bool) : Request → Bool
  | .pixel w => if w.x = x ∧ w.y = y then w.lit else lit
  | _ => lit

/-- The colour that a point was last given; dark if it was given none. -/
def shownAt (requests : List Request) (x y : Int) : Bool :=
  requests.foldl (colourAfter x y) false

/-- The host was last given the colours of this screen. -/
def Shows (requests : List Request) (s : Screen) : Prop :=
  ∀ x y, 0 ≤ x ∧ x < s.width → 0 ≤ y ∧ y < s.height → shownAt requests x y = s.lit x y

/-- A picture is handed over as a whole: every point of the screen once, then one refresh. -/
def IsFrame (s : Screen) (requests : List Request) : Prop :=
  ∃ writes : List PixelWrite, requests = writes.map .pixel ++ [.refresh] ∧
    (writes.map PixelWrite.point).Nodup ∧
    ∀ w, w ∈ writes ↔
      (0 ≤ w.x ∧ w.x < s.width) ∧ (0 ≤ w.y ∧ w.y < s.height) ∧ w.lit = s.lit w.x w.y

theorem isFrame_render (s : Screen) : IsFrame s s.render :=
  ⟨s.pixelWrites, rfl, nodup_pixelWrites s, fun _ => mem_pixelWrites⟩

/-! ## What requests do to the colours -/

variable {requests more : List Request} {s : Screen} {x y : Int}

/-- Requests of other kinds leave every colour. -/
theorem shownAt_append_of_not_pixel (h : ∀ r ∈ more, r.pixel? = none) :
    shownAt (requests ++ more) x y = shownAt requests x y := by
  unfold shownAt
  rw [List.foldl_append]
  generalize requests.foldl (colourAfter x y) false = lit
  induction more with
  | nil => rfl
  | cons r rest ih =>
    have hr : colourAfter x y lit r = lit := by
      cases r with
      | pixel w => cases h _ List.mem_cons_self
      | title _ | refresh | beep => rfl
    rw [List.foldl_cons, hr]
    exact ih fun r' hr' => h r' (List.mem_cons_of_mem r hr')

theorem shows_append_render (requests : List Request) (s : Screen) :
    Shows (requests ++ s.render) s := by
  intro x y hx hy
  unfold shownAt render
  rw [List.foldl_append, List.foldl_append, List.foldl_map]
  exact look_foldl_pixelWrites id id (fun _ => True) (fun _ _ _ _ => trivial)
    (fun _ _ _ _ => rfl) hx hy trivial

theorem Shows.append (h : Shows requests s) (hmore : ∀ r ∈ more, r.pixel? = none) :
    Shows (requests ++ more) s := by
  intro x y hx hy
  rw [shownAt_append_of_not_pixel hmore]
  exact h x y hx hy

theorem shows_blank (width height : Int) (h : ∀ r ∈ requests, r.pixel? = none) :
    Shows requests (blank width height) := by
  intro x y _ _
  have hdark : shownAt ([] ++ requests) x y = false := shownAt_append_of_not_pixel h
  rw [lit_blank, ← hdark, List.nil_append]

/-! ## Ticks -/

variable {h : History} {t : Binary64} {input : Poll}

/-- Nothing has happened to the picture that the host was not given, unless the flag is up. -/
def UpToDate (h : History) : Prop :=
  h.loop.machine.screen.redraw = true ∨ Shows h.requests h.loop.machine.screen

theorem pixel?_of_report {l : HostLoop} : ∀ r ∈ (l.report t).2, r.pixel? = none := by
  intro r hr
  obtain ⟨text, rfl⟩ := titles_report hr
  rfl

theorem pixel?_of_beep (n : Nat) : ∀ r ∈ List.replicate n Request.beep, r.pixel? = none := by
  intro r hr
  rw [List.eq_of_mem_replicate hr]
  rfl

/-- When a tick that polled comes to step the machine, the host has been given the picture. -/
theorem UpToDate.attend (hu : UpToDate h) (held : Vector Bool 16) :
    Shows (h.requests ++ (h.loop.attend t held).2) (h.loop.attend t held).1.machine.screen := by
  rw [machine_attend, requests_attend, ← List.append_assoc]
  unfold frame
  cases hflag : h.loop.machine.screen.redraw with
  | true => exact shows_append_render _ h.loop.machine.screen
  | false =>
    rcases hu with hup | hshows
    · rw [hflag] at hup
      cases hup
    · exact (hshows.append pixel?_of_report).append (by simp)

/-- A step either leaves the picture or puts the flag up. -/
theorem upToDate_stepMachine {l : HostLoop} {before made : List Request} (hpc : 0 ≤ l.machine.pc)
    (hu : UpToDate ⟨l, before ++ made⟩) :
    UpToDate ⟨(l.stepMachine made).loop, before ++ (l.stepMachine made).requests⟩ := by
  unfold UpToDate at hu ⊢
  simp only [machine_stepMachine, requests_stepMachine]
  rcases step_screen hpc with hsame | hup
  · rw [hsame, ← List.append_assoc]
    exact hu.imp id fun hshows => hshows.append (pixel?_of_beep _)
  · exact Or.inl hup

theorem UpToDate.tick (hm : Invariant h.loop.machine) (hu : UpToDate h) :
    UpToDate (h.tick t input) := by
  have htitled : UpToDate ⟨(h.loop.report t).1, h.requests ++ (h.loop.report t).2⟩ := by
    unfold UpToDate at hu ⊢
    simp only [machine_report]
    exact hu.imp id fun hshows => hshows.append pixel?_of_report
  unfold History.tick
  rcases tick_cases h.loop t input with ⟨_, ht⟩ | ⟨_, _, ht⟩ | ⟨_, _, ht⟩ | ⟨_, _, ht⟩ <;> rw [ht]
  · rw [List.append_nil]
    exact hu
  · exact htitled
  · apply upToDate_stepMachine
    · rw [machine_attend]
      exact hm.pc.1
    · exact Or.inr (hu.attend input.held)
  · apply upToDate_stepMachine
    · rw [machine_report]
      exact hm.pc.1
    · exact htitled

/-- What a tick asks for: perhaps a title, perhaps a whole picture, perhaps a sound. -/
theorem requests_tick (l : HostLoop) (t : Binary64) (input : Poll) :
    ∃ titles frame beeps, (l.tick t input).requests = titles ++ frame ++ beeps ∧
      (∀ r ∈ titles, ∃ text, r = .title text) ∧
      (frame = [] ∨ IsFrame l.machine.screen frame) ∧ ∀ r ∈ beeps, r = .beep := by
  have hframe : l.frame = [] ∨ IsFrame l.machine.screen l.frame := by
    unfold frame
    split
    · exact Or.inr (isFrame_render _)
    · exact Or.inl rfl
  have hbeeps : ∀ n, ∀ r ∈ List.replicate n Request.beep, r = .beep :=
    fun _ _ => List.eq_of_mem_replicate
  rcases tick_cases l t input with ⟨_, ht⟩ | ⟨_, _, ht⟩ | ⟨_, _, ht⟩ | ⟨_, _, ht⟩ <;> rw [ht]
  · exact ⟨[], [], [], rfl, by simp, Or.inl rfl, by simp⟩
  · exact ⟨(l.report t).2, [], [], by simp, fun _ => titles_report, Or.inl rfl, by simp⟩
  · rw [requests_stepMachine, requests_attend]
    exact ⟨_, _, _, rfl, fun _ => titles_report, hframe, hbeeps _⟩
  · rw [requests_stepMachine]
    exact ⟨(l.report t).2, [], _, by rw [List.append_nil], fun _ => titles_report, Or.inl rfl,
      hbeeps _⟩

/-- A picture is shown by a tick that polls, does not quit and finds the flag up. -/
theorem refresh_mem_requests_iff {l : HostLoop} : .refresh ∈ (l.tick t input).requests ↔
    l.tickPolls t = true ∧ input.quit = false ∧ l.machine.screen.redraw = true := by
  have htitles : .refresh ∉ (l.report t).2 := List.count_eq_zero.mp (count_report rfl l t)
  have hbeeps : ∀ n, Request.refresh ∉ List.replicate n .beep := by simp
  have hframe : .refresh ∈ l.frame ↔ l.machine.screen.redraw = true := by
    unfold frame Screen.render
    split <;> simp [*]
  rcases tick_cases l t input with ⟨hf, ht⟩ | ⟨hp, hq, ht⟩ | ⟨hp, hq, ht⟩ | ⟨_, hp, ht⟩ <;> rw [ht]
  · simp [tickPolls, hf]
  · simp [htitles, hq]
  · simp [requests_stepMachine, requests_attend, htitles, hframe, hbeeps, hp, hq]
  · simp [requests_stepMachine, htitles, hbeeps, hp]

/-- Whatever program is run and however its ticks fall and end: unless the flag is up, the host was
last given the picture as it is, and a tick that polls gives it to the host before the machine
steps. Pictures are only given as a whole. -/
theorem History.picture_kept (program : List UInt8) (live : Bool) (random : Nat → Int)
    (ticks : List (Binary64 × Poll)) :
    let h := (History.start (boot program live random)).after ticks
    (h.loop.machine.screen.width = 64 ∧ h.loop.machine.screen.height = 32) ∧
      (h.loop.machine.screen.redraw = true ∨ Shows h.requests h.loop.machine.screen) ∧
      ∀ t input,
        (h.loop.tickPolls t = true → input.quit = false →
          let (ready, made) := h.loop.attend t input.held
          h.loop.tick t input = ready.stepMachine made ∧
            Shows (h.requests ++ made) ready.machine.screen) ∧
        ∃ titles frame beeps, (h.loop.tick t input).requests = titles ++ frame ++ beeps ∧
          (∀ r ∈ titles, ∃ text, r = .title text) ∧
          (frame = [] ∨ IsFrame h.loop.machine.screen frame) ∧ ∀ r ∈ beeps, r = .beep := by
  intro h
  have hkept : Invariant h.loop.machine ∧ UpToDate h := by
    refine History.after_of_tick (P := fun h => Invariant h.loop.machine ∧ UpToDate h) ?_ ?_ ticks
    · rintro h t input ⟨hm, hu⟩
      exact ⟨History.invariant_tick hm, hu.tick hm⟩
    · refine ⟨boot_invariant program live random, Or.inr (shows_blank _ _ ?_)⟩
      intro r hr
      rw [List.mem_singleton.mp hr]
      rfl
  refine ⟨⟨hkept.1.width, hkept.1.height⟩, hkept.2, fun t input => ⟨?_, requests_tick _ t input⟩⟩
  intro hpoll hquit
  exact ⟨tick_of_poll hpoll hquit, hkept.2.attend input.held⟩

end Chip8.HostLoop
