import Mathlib.Algebra.GroupWithZero.Nat
import Chip8.Proofs.HostLoop.Tick
import Chip8.Proofs.Text.Decimal

/-! # What the titles report

A report hands the counters over to a title and starts them again, whatever becomes of the tick
after that. So the numbers in the titles, with what the counters hold, are all the steps that were
taken and all the pictures that were shown. As long as times are small enough for the next full
second to be a number, a second is reported in once at most. -/

namespace Chip8.HostLoop

/-- What a title says. -/
structure Speed where
  fps : Nat
  ops : Nat

def Speed.text (s : Speed) : String := titleText s.fps s.ops

/-- The titles among some requests, in order. -/
def titles (requests : List Request) : List String := requests.filterMap Request.title?

/-- The titles among the requests say these speeds. -/
def Reported (requests : List Request) (speeds : List Speed) : Prop :=
  titles requests = speeds.map Speed.text

/-- How each of some ticks ends. -/
def verdicts (l : HostLoop) : List (Binary64 × Poll) → List Verdict
  | [] => []
  | given :: rest =>
    let done := l.tick given.1 given.2
    done.verdict :: done.loop.verdicts rest

/-- The time of the tick that sets it, for each title that some ticks set. -/
def reportTimes (l : HostLoop) : List (Binary64 × Poll) → List Binary64
  | [] => []
  | given :: rest =>
    let done := l.tick given.1 given.2
    (titles done.requests).map (fun _ => given.1) ++ done.loop.reportTimes rest

variable {l : HostLoop} {h : History} {t : Binary64} {input : Poll} {n : Nat}
  {requests more : List Request} {speeds others : List Speed}

/-! ## Reading titles -/

theorem titleText_injective {fps ops fps' ops' : Nat}
    (h : titleText fps ops = titleText fps' ops') : fps = fps' ∧ ops = ops' := by
  -- Behind either number stands a blank. The other characters do not matter.
  obtain ⟨q, hq⟩ : ∃ q, " FPS, ".toList = ' ' :: q := ⟨_, rfl⟩
  obtain ⟨r, hr⟩ : ∃ r, " OPS".toList = ' ' :: r := ⟨_, rfl⟩
  unfold titleText at h
  generalize "PeaChip Emulator - " = before at h
  generalize " FPS, " = between at h hq
  generalize " OPS" = after at h hr
  have hlist := congrArg String.toList h
  simp only [String.toList_append, List.append_assoc, hq, hr, List.cons_append] at hlist
  obtain ⟨hfps, hrest⟩ := Text.decimal_append_inj rfl rfl (List.append_cancel_left hlist)
  rw [List.cons_inj_right] at hrest
  obtain ⟨hops, _⟩ := Text.decimal_append_inj rfl rfl (List.append_cancel_left hrest)
  exact ⟨hfps, hops⟩

theorem text_injective {s s' : Speed} (h : s.text = s'.text) : s = s' := by
  obtain ⟨hfps, hops⟩ := titleText_injective h
  cases s
  cases s'
  cases hfps
  cases hops
  rfl

theorem Reported.unique (h : Reported requests speeds) (h' : Reported requests others) :
    others = speeds :=
  (List.map_inj_right fun _ _ => text_injective).mp (h'.symm.trans h)

@[simp] theorem titles_append (requests more : List Request) :
    titles (requests ++ more) = titles requests ++ titles more := List.filterMap_append

theorem titles_of_not_title (h : ∀ r ∈ requests, r.title? = none) : titles requests = [] :=
  List.filterMap_eq_nil_iff.mpr h

theorem Reported.append (h : Reported requests speeds) (hmore : Reported more others) :
    Reported (requests ++ more) (speeds ++ others) := by
  unfold Reported at h hmore ⊢
  rw [titles_append, h, hmore, List.map_append]

/-! ## Ticks -/

/-- A tick that does not report leaves the counters, one that does starts them again. -/
theorem report_cases (l : HostLoop) (t : Binary64) :
    l.report t = (l, []) ∨ ∃ second, l.reports t = true ∧ t.integerPart? = some second ∧
      l.report t = ({ l with nextReport := (Binary64.ofRat second).add 1, fps := 0, ops := 0 },
        [.title (titleText l.fps l.ops)]) := by
  unfold report
  split
  · exact Or.inr ⟨_, by assumption, by assumption, rfl⟩
  · exact Or.inl rfl

theorem report_of_not (h : l.reports t = false ∨ t.integerPart? = none) :
    l.report t = (l, []) := by
  rcases report_cases l t with hreport | ⟨second, hreports, hsecond, _⟩
  · exact hreport
  · rw [hreports, hsecond] at h
    exact h.elim nofun nofun

theorem titles_frame (l : HostLoop) : titles l.frame = [] := by
  apply titles_of_not_title
  intro r hr
  unfold frame Screen.render at hr
  split at hr
  · rcases List.mem_append.mp hr with hr | hr
    · obtain ⟨_, _, rfl⟩ := List.mem_map.mp hr
      rfl
    · rw [List.mem_singleton.mp hr]
      rfl
  · cases hr

theorem titles_beeps (n : Nat) : titles (List.replicate n .beep) = [] :=
  titles_of_not_title fun _ hr => List.eq_of_mem_replicate hr ▸ rfl

theorem count_refresh_render (s : Screen) : s.render.count .refresh = 1 := by
  have hpixels : Request.refresh ∉ s.pixelWrites.map .pixel := by simp
  rw [Screen.render, List.count_append, List.count_eq_zero.mpr hpixels]
  rfl

theorem counts_showScreen (l : HostLoop) : l.showScreen.1.ops = l.ops ∧
    l.showScreen.1.fps = l.fps + l.showScreen.2.count .refresh := by
  unfold showScreen Screen.consumeRedraw
  cases l.machine.screen.redraw with
  | true => exact ⟨rfl, congrArg (l.fps + ·) (count_refresh_render _).symm⟩
  | false => exact ⟨rfl, rfl⟩

theorem counts_attend (l : HostLoop) (t : Binary64) (held : Vector Bool 16) :
    (l.attend t held).1.ops = (l.report t).1.ops ∧
      (l.attend t held).1.fps = (l.report t).1.fps + (l.attend t held).2.count .refresh := by
  unfold attend
  rw [List.count_append, count_report rfl, Nat.zero_add]
  exact counts_showScreen _

theorem counts_stepMachine (l : HostLoop) (before : List Request) :
    (l.stepMachine before).loop.ops = l.ops + [(l.stepMachine before).verdict].count .running ∧
      (l.stepMachine before).loop.fps = l.fps := by
  unfold stepMachine
  simp only []
  split <;> exact ⟨rfl, rfl⟩

theorem count_refresh_stepMachine (l : HostLoop) (before : List Request) :
    (l.stepMachine before).requests.count .refresh = before.count .refresh := by
  have hbeeps : ∀ n, Request.refresh ∉ List.replicate n .beep := by simp
  rw [requests_stepMachine, List.count_append, List.count_eq_zero.mpr (hbeeps _), Nat.add_zero]

/-- Whatever way a tick takes, its report is all it does with titles and with the time of the next
report, and its step and its picture are counted after that. -/
theorem counts_tick (l : HostLoop) (t : Binary64) (input : Poll) :
    titles (l.tick t input).requests = titles (l.report t).2 ∧
      (l.tick t input).loop.nextReport = (l.report t).1.nextReport ∧
      (l.tick t input).loop.ops =
        (l.report t).1.ops + [(l.tick t input).verdict].count .running ∧
      (l.tick t input).loop.fps =
        (l.report t).1.fps + (l.tick t input).requests.count .refresh := by
  rcases tick_cases l t input with ⟨hf, ht⟩ | ⟨_, _, ht⟩ | ⟨_, _, ht⟩ | ⟨_, _, ht⟩ <;> rw [ht]
  · have hnone : t.integerPart? = none :=
      Option.isNone_iff_eq_none.mp (Bool.and_eq_true_iff.mp hf).2
    rw [report_of_not (Or.inr hnone)]
    exact ⟨rfl, rfl, rfl, rfl⟩
  · refine ⟨rfl, rfl, rfl, ?_⟩
    rw [count_report rfl]
    rfl
  · obtain ⟨hops, hfps⟩ := counts_attend l t input.held
    obtain ⟨hops', hfps'⟩ := counts_stepMachine (l.attend t input.held).1 (l.attend t input.held).2
    refine ⟨?_, ?_, by rw [hops', hops], ?_⟩
    · rw [requests_stepMachine, requests_attend, titles_append, titles_append, titles_frame,
        titles_beeps, List.append_nil, List.append_nil]
    · rw [nextReport_stepMachine, nextReport_attend]
    · rw [hfps', hfps, count_refresh_stepMachine]
  · obtain ⟨hops', hfps'⟩ := counts_stepMachine (l.report t).1 (l.report t).2
    refine ⟨?_, nextReport_stepMachine _ _, hops', ?_⟩
    · rw [requests_stepMachine, titles_append, titles_beeps, List.append_nil]
    · rw [hfps', count_refresh_stepMachine, count_report rfl]
      rfl

/-! ## Nothing is lost or counted twice -/

/-- The titles, with what the counters hold, say all the steps and all the pictures so far. -/
structure Balanced (h : History) (steps : Nat) (speeds : List Speed) : Prop where
  reported : Reported h.requests speeds
  ops : (speeds.map Speed.ops).sum + h.loop.ops = steps
  fps : (speeds.map Speed.fps).sum + h.loop.fps = h.requests.count .refresh

theorem balanced_start (m : Machine) : Balanced (.start m) 0 [⟨0, 0⟩] := ⟨rfl, rfl, rfl⟩

/-- A report moves what the counters hold into a title. -/
theorem exists_reported_report (l : HostLoop) (t : Binary64) :
    ∃ speeds, Reported (l.report t).2 speeds ∧
      (speeds.map Speed.ops).sum + (l.report t).1.ops = l.ops ∧
      (speeds.map Speed.fps).sum + (l.report t).1.fps = l.fps := by
  rcases report_cases l t with hreport | ⟨_, _, _, hreport⟩ <;> rw [hreport]
  · exact ⟨[], rfl, Nat.zero_add _, Nat.zero_add _⟩
  · exact ⟨[⟨l.fps, l.ops⟩], rfl, rfl, rfl⟩

theorem Balanced.tick {steps : Nat} (hb : Balanced h steps speeds) (t : Binary64)
    (input : Poll) :
    ∃ more, Balanced (h.tick t input) (steps + [(h.loop.tick t input).verdict].count .running)
      (speeds ++ more) := by
  obtain ⟨more, hmore, hops, hfps⟩ := exists_reported_report h.loop t
  obtain ⟨htitles, -, hops', hfps'⟩ := counts_tick h.loop t input
  refine ⟨more, hb.reported.append (htitles.trans hmore), ?_, ?_⟩
  · have hsteps := hb.ops
    rw [List.map_append, List.sum_append, History.tick, hops']
    omega
  · have hpictures := hb.fps
    rw [List.map_append, List.sum_append, History.tick, hfps', List.count_append]
    omega

theorem Balanced.after {steps : Nat} (hb : Balanced h steps speeds)
    (ticks : List (Binary64 × Poll)) :
    ∃ speeds, Balanced (h.after ticks) (steps + (h.loop.verdicts ticks).count .running)
      speeds := by
  induction ticks generalizing h steps speeds with
  | nil => exact ⟨speeds, hb⟩
  | cons given rest ih =>
    obtain ⟨more, hb'⟩ := hb.tick given.1 given.2
    obtain ⟨all, hall⟩ := ih hb'
    refine ⟨all, ?_⟩
    rw [verdicts, List.count_cons, Nat.add_comm (List.count _ _), ← Nat.add_assoc]
    rwa [List.count_singleton] at hall

/-! ## One report a second -/

/-- The next report is due at a full second that is a number. -/
def Due (l : HostLoop) (n : Nat) : Prop := n ≤ Nat.pow 2 53 ∧ l.nextReport = .finite n

theorem due_start (m : Machine) : Due (start m).1 0 := ⟨Nat.zero_le _, rfl⟩

theorem Due.reports_iff (hdue : Due l n) {q : Rat} :
    l.reports (.finite q) = true ↔ (n : Rat) ≤ q := by
  rw [reports, hdue.2, Binary64.finite_le_finite]

/-- After a report the next one is due a second later. -/
theorem Due.report (hdue : Due l n) {q : Rat} (hq : (n : Rat) ≤ q)
    (hsmall : q < (Nat.pow 2 53 : Nat)) :
    (l.report (.finite q)).2 = [.title (titleText l.fps l.ops)] ∧
      ∃ second : Nat, Binary64.truncate q = second ∧ n ≤ second ∧
        Due (l.report (.finite q)).1 (second + 1) := by
  have hfloor : Binary64.truncate q = q.floor := if_pos (Rat.le_trans Rat.natCast_nonneg hq)
  have hn : (n : Int) ≤ q.floor := Rat.le_floor_iff.mpr hq
  have hlt : q.floor < (Nat.pow 2 53 : Nat) := Rat.floor_lt_iff.mpr hsmall
  obtain ⟨k, hk⟩ := Int.eq_ofNat_of_zero_le (Int.le_trans (Int.natCast_nonneg n) hn)
  rw [hk] at hn hlt hfloor
  have hnext : k + 1 ≤ Nat.pow 2 53 := Int.ofNat_lt.mp hlt
  have hreport : l.report (.finite q) =
      ({ l with nextReport := (Binary64.ofRat (k : Int)).add 1, fps := 0, ops := 0 },
        [.title (titleText l.fps l.ops)]) := by
    simp only [HostLoop.report, Binary64.integerPart?, hdue.reports_iff.mpr hq, hfloor]
  rw [hreport]
  refine ⟨rfl, k, hfloor, Int.ofNat_le.mp hn, hnext, ?_⟩
  show (Binary64.ofRat (k : Nat)).add (.finite (1 : Nat)) = .finite (k + 1 : Nat)
  rw [Binary64.ofRat_natCast (Nat.le_of_succ_le hnext), Binary64.add, ← Rat.natCast_add,
    Binary64.ofRat_natCast hnext]

theorem Due.tick_of_report (hdue : Due l n) {q : Rat} (hq : (n : Rat) ≤ q)
    (hsmall : q < (Nat.pow 2 53 : Nat)) (input : Poll) :
    titles (l.tick (.finite q) input).requests = [titleText l.fps l.ops] ∧
      ∃ second : Nat, Binary64.truncate q = second ∧ n ≤ second ∧
        Due (l.tick (.finite q) input).loop (second + 1) := by
  obtain ⟨htitles, hnext, -, -⟩ := counts_tick l (.finite q) input
  obtain ⟨hasked, second, hsecond, hn, hlater⟩ := hdue.report hq hsmall
  rw [htitles, hasked]
  exact ⟨rfl, second, hsecond, hn, hlater.1, hnext.trans hlater.2⟩

theorem Due.tick_of_no_report (hdue : Due l n)
    (h : l.reports t = false ∨ t.integerPart? = none) (input : Poll) :
    titles (l.tick t input).requests = [] ∧ Due (l.tick t input).loop n := by
  obtain ⟨htitles, hnext, -, -⟩ := counts_tick l t input
  rw [report_of_not h] at htitles hnext
  exact ⟨htitles, hdue.1, hnext.trans hdue.2⟩

theorem Due.seconds (hdue : Due l n) {ticks : List (Binary64 × Poll)}
    (hsmall : ∀ given ∈ ticks, given.1.lt (.finite (Nat.pow 2 53 : Nat)) = true) :
    ∃ seconds : List Int, (l.reportTimes ticks).map Binary64.integerPart? = seconds.map some ∧
      (∀ s ∈ seconds, n ≤ s) ∧ seconds.Pairwise (· < ·) := by
  induction ticks generalizing l n with
  | nil => exact ⟨[], rfl, by simp, .nil⟩
  | cons given rest ih =>
    obtain ⟨t, input⟩ := given
    have hrest := fun other hother => hsmall other (List.mem_cons_of_mem _ hother)
    by_cases hreport : ∃ q, t = .finite q ∧ l.reports t = true
    · obtain ⟨q, rfl, hreports⟩ := hreport
      have hq : q < (Nat.pow 2 53 : Nat) := by
        simpa [Binary64.lt] using hsmall _ List.mem_cons_self
      obtain ⟨htitles, second, hsecond, hn, hlater⟩ :=
        hdue.tick_of_report (hdue.reports_iff.mp hreports) hq input
      obtain ⟨seconds, hmap, hfrom, hsorted⟩ := ih hlater hrest
      have hbehind : ∀ later ∈ seconds, (second : Int) < later := fun later hmem =>
        Int.lt_of_lt_of_le (Int.ofNat_lt.mpr (Nat.lt_succ_self second)) (hfrom later hmem)
      refine ⟨second :: seconds, ?_, ?_, List.pairwise_cons.mpr ⟨hbehind, hsorted⟩⟩
      · simp only [reportTimes, htitles, List.map_cons, List.map_nil, List.singleton_append, hmap,
          Binary64.integerPart?, hsecond]
      · intro later hmem
        rcases List.mem_cons.mp hmem with rfl | hmem
        · exact Int.ofNat_le.mpr hn
        · exact Int.le_trans (Int.ofNat_le.mpr hn) (Int.le_of_lt (hbehind later hmem))
    · have hnone : l.reports t = false ∨ t.integerPart? = none := by
        cases t with
        | finite q => exact Or.inl (Bool.eq_false_iff.mpr fun h => hreport ⟨q, rfl, h⟩)
        | infinite _ => exact Or.inr rfl
        | undefined => exact Or.inr rfl
      obtain ⟨htitles, hsame⟩ := hdue.tick_of_no_report hnone input
      simp only [reportTimes, htitles]
      exact ih hsame hrest

/-- Every title but the one at the start is set by a tick. -/
theorem length_titles_after (h : History) (ticks : List (Binary64 × Poll)) :
    (titles (h.after ticks).requests).length =
      (titles h.requests).length + (h.loop.reportTimes ticks).length := by
  induction ticks generalizing h with
  | nil => rfl
  | cons given rest ih =>
    rw [reportTimes, List.length_append, List.length_map, ← Nat.add_assoc, ← List.length_append,
      ← titles_append]
    exact ih (h.tick given.1 given.2)

/-- However its ticks fall and end, what a loop has reported in its titles, with what its counters
hold, is how many ticks stepped the machine and how many pictures were shown. If all times are below
`2 ^ 53`, even if they go backwards, the reports are made in later and later seconds. -/
theorem History.reports_exact (m : Machine) (ticks : List (Binary64 × Poll)) :
    let h := (History.start m).after ticks
    let times := (HostLoop.start m).1.reportTimes ticks
    (∃ speeds, Reported h.requests speeds ∧
      (∀ others, Reported h.requests others → others = speeds) ∧
      speeds.length = 1 + times.length ∧
      (speeds.map Speed.ops).sum + h.loop.ops =
        ((HostLoop.start m).1.verdicts ticks).count .running ∧
      (speeds.map Speed.fps).sum + h.loop.fps = h.requests.count .refresh) ∧
    ((∀ given ∈ ticks, given.1.lt (.finite (Nat.pow 2 53 : Nat)) = true) →
      ∃ seconds : List Int, times.map Binary64.integerPart? = seconds.map some ∧
        seconds.Pairwise (· < ·)) := by
  intro h times
  constructor
  · obtain ⟨speeds, hb⟩ := (balanced_start m).after ticks
    refine ⟨speeds, hb.reported, fun _ => hb.reported.unique, ?_, ?_, hb.fps⟩
    · have hlength := congrArg List.length hb.reported
      rw [List.length_map] at hlength
      exact hlength.symm.trans (length_titles_after (.start m) ticks)
    · exact hb.ops.trans (Nat.zero_add _)
  · intro hsmall
    obtain ⟨seconds, hmap, _, hsorted⟩ := (due_start m).seconds hsmall
    exact ⟨seconds, hmap, hsorted⟩

theorem reportTimes_backwards (m : Machine) (input : Poll) :
    (start m).1.reportTimes
        [(.finite 0, input), (.finite (3 / 2), input), (.finite (1 / 2), input)] =
      [.finite 0, .finite (3 / 2)] := by
  obtain ⟨hfirst, s, hs, _, hdue⟩ :=
    (due_start m).tick_of_report (q := 0) (by decide) (by decide +kernel) input
  obtain rfl : s = 0 := Int.ofNat_inj.mp hs.symm
  have hsmall : 3 / 2 < ((Nat.pow 2 53 : Nat) : Rat) := by decide +kernel
  obtain ⟨hsecond, s, hs, _, hdue⟩ := hdue.tick_of_report (by decide +kernel) hsmall input
  have hfloor : Binary64.truncate (3 / 2) = (1 : Nat) := by decide +kernel
  obtain rfl : s = 1 := Int.ofNat_inj.mp (hs.symm.trans hfloor)
  have hlast : ¬ ((1 + 1 : Nat) : Rat) ≤ 1 / 2 := by decide +kernel
  obtain ⟨hthird, _⟩ := hdue.tick_of_no_report
    (Or.inl (Bool.eq_false_iff.mpr (hdue.reports_iff.not.mpr hlast))) input
  simp only [reportTimes, hfirst, hsecond, hthird, List.map_cons, List.map_nil,
    List.singleton_append, List.append_nil]

theorem History.reports_exact_backwards :
    let idle : Poll := ⟨false, Vector.replicate 16 false⟩
    let ticks := [(.finite 0, idle), (.finite (3 / 2), idle), (.finite (1 / 2), idle)]
    let m := Machine.boot [0x12, 0x00] false fun _ => 0
    let h := (History.start m).after ticks
    let times := (HostLoop.start m).1.reportTimes ticks
    (∀ given ∈ ticks, given.1.lt (.finite (Nat.pow 2 53 : Nat)) = true) ∧
      times = [.finite 0, .finite (3 / 2)] ∧
      (∃ speeds, Reported h.requests speeds ∧ speeds.length = 3 ∧
        (speeds.map Speed.ops).sum + h.loop.ops =
          ((HostLoop.start m).1.verdicts ticks).count .running) ∧
      ∃ seconds : List Int, times.map Binary64.integerPart? = seconds.map some ∧
        seconds.Pairwise (· < ·) := by
  intro idle ticks m
  generalize m = m
  intro h times
  have htimes : times = [.finite 0, .finite (3 / 2)] := reportTimes_backwards m idle
  have hsmall : ∀ given ∈ ticks, given.1.lt (.finite (Nat.pow 2 53 : Nat)) = true := by
    decide +kernel
  obtain ⟨⟨speeds, hreported, _, hlength, hops, _⟩, hseconds⟩ := History.reports_exact m ticks
  refine ⟨hsmall, htimes, ⟨speeds, hreported, ?_, hops⟩, hseconds hsmall⟩
  exact hlength.trans (congrArg (1 + ·.length) htimes)

end Chip8.HostLoop
