import Chip8.Proofs.Binary64
import Chip8.Proofs.Terminal.Queue

/-! # How long a key counts as held down

A terminal does not say when a key is released, so every visit of the loop holds the keys that it
takes until a fixed time after a reading of the clock, which it makes for the first of them.
Whatever was queued and looked at before, and in whatever order the readings are, a key counts as
held down as long as the latest visit that took it says. -/

namespace Chip8.Terminal

/-- What happens to a keyboard: a party acts, and may read the clock for it, or somebody else puts
an entry into the queue. -/
inductive Moment
  | acted (event : Event) (reading : Option Binary64)
  | put (entry : Option (Fin 16))

namespace Moment

def event? : Moment → Option Event
  | .acted event _ => some event
  | .put _ => none

def reading? : Moment → Option Binary64
  | .acted _ reading => reading
  | .put _ => none

/-- The key that is taken. -/
def key? (m : Moment) : Option (Fin 16) := m.event?.bind Event.key?

@[simp] theorem key?_acted (e : Event) (reading : Option Binary64) :
    (acted e reading).key? = e.key? := rfl

/-- The answer of a visit that ends. -/
def answer? (m : Moment) : Option Bool := m.event?.bind Event.answer?

/-- The entry that comes into the queue. -/
def entry? : Moment → Option (Option (Fin 16))
  | .acted (.offered key queued) _ => if queued < Keyboard.capacity then some (some key) else none
  | .acted .marked _ => some none
  | .acted _ _ => none
  | .put entry => some entry

/-- The entry that is taken from the queue. -/
def gone? : Moment → Option (Option (Fin 16))
  | .acted (.took key _) _ => some (some key)
  | .acted (.returned true) _ => some none
  | _ => none

/-- Whether a visit begins. -/
def calls : Moment → Bool
  | .acted .called _ => true
  | _ => false

/-- Whether a visit ends. -/
def returns : Moment → Bool
  | .acted (.returned _) _ => true
  | _ => false

end Moment

/-- What a visit of the loop did: the keys that it took and the readings that it made. -/
structure Look where
  keys : List (Fin 16)
  readings : List Binary64

namespace Look

/-- What a visit has done after one moment more. -/
def add (look : Look) (m : Moment) : Look :=
  ⟨look.keys ++ m.key?.toList, look.readings ++ m.reading?.toList⟩

/-- Until when the keys are held, if any were taken. -/
def deadline? (look : Look) : Option Binary64 :=
  look.readings.head?.map fun time => time.add Keyboard.holdTime

/-- One reading for all keys, and none without a key. -/
def Proper (look : Look) : Prop :=
  (look.keys = [] ∧ look.readings = []) ∨ (look.keys ≠ [] ∧ ∃ time, look.readings = [time])

theorem Proper.reading_of_mem {look : Look} {key : Fin 16} (h : look.Proper)
    (hkey : key ∈ look.keys) : ∃ time, look.readings = [time] := by
  rcases h with ⟨hkeys, _⟩ | ⟨_, hreading⟩
  · rw [hkeys] at hkey
    cases hkey
  · exact hreading

theorem deadline?_of_readings {look : Look} {time : Binary64} (h : look.readings = [time]) :
    look.deadline? = some (time.add Keyboard.holdTime) := by
  rw [deadline?, h]
  rfl

end Look

/-- What the visits have done, the latest one first. -/
def noted (looks : List Look) (m : Moment) : List Look :=
  if m.calls then ⟨[], []⟩ :: looks else looks.modifyHead (·.add m)

def looks (log : List Moment) : List Look := log.foldl noted []

/-- The latest visit that took a key. -/
def latest? (key : Fin 16) (looks : List Look) : Option Look := looks.find? (key ∈ ·.keys)

/-- The entries that came into the queue. -/
def entered (log : List Moment) : List (Option (Fin 16)) := log.filterMap Moment.entry?

/-- The entries that were taken from it. -/
def gone (log : List Moment) : List (Option (Fin 16)) := log.filterMap Moment.gone?

namespace Exchange

/-- A visit reads the clock for its first key, and nothing else is a reason to. -/
inductive Reads : Visit → Event → Option Binary64 → Prop
  | first (key : Fin 16) (time : Binary64) :
    Reads (.taking none) (.took key (time.add Keyboard.holdTime)) (some time)
  | later (key : Fin 16) (deadline : Binary64) :
    Reads (.taking (some deadline)) (.took key deadline) none
  | other (l : Visit) (e : Event) (nothing : e.key? = none) : Reads l e none

/-- One moment. -/
inductive Happens : Exchange → Moment → Exchange → Prop
  | act {x y : Exchange} {e : Event} {reading : Option Binary64} :
    Step x e y → Reads x.loop e reading → Happens x (.acted e reading) y
  | put (k : Keyboard) (r : Phase) (l : Visit) (entry : Option (Fin 16)) :
    Happens ⟨k, r, l⟩ (.put entry) ⟨{ k with queue := k.queue ++ [entry] }, r, l⟩

/-- One moment after the other. -/
inductive History (x : Exchange) : List Moment → Exchange → Prop
  | nil : History x [] x
  | snoc {log : List Moment} {y z : Exchange} {m : Moment} :
    History x log y → Happens y m z → History x (log ++ [m]) z

variable {x y z s : Exchange} {e : Event} {m : Moment} {reading : Option Binary64}
  {log before during after : List Moment} {keymap : Keymap} {look : Look} {ls : List Look}
  {k : Keyboard} {d : Option Binary64} {key : Fin 16} {deadline : Binary64}

/-! ## Histories -/

theorem Step.reads (hs : Step x e y) : ∃ reading, Reads x.loop e reading := by
  cases hs with
  | take k r d time key rest head =>
    cases d with
    | none => exact ⟨some time, .first key time⟩
    | some d => exact ⟨none, .later key d⟩
  | _ => exact ⟨none, .other _ _ rfl⟩

theorem Step.reads_at (hs : Step x e y) (time : Binary64)
    (he : ∀ key d, e = .took key d → d = time.add Keyboard.holdTime) :
    ∃ reading, Reads x.loop e reading ∧ ∀ t ∈ reading, t = time := by
  cases hs with
  | take k r d time' key rest head =>
    cases d with
    | none =>
      -- The step may have been made at another time that gives the same deadline.
      have hsame : time'.add Keyboard.holdTime = time.add Keyboard.holdTime := he key _ rfl
      refine ⟨some time, ?_, fun t ht => (Option.some_inj.mp ht).symm⟩
      change Reads (.taking none) (.took key (time'.add Keyboard.holdTime)) (some time)
      rw [hsame]
      exact .first key time
    | some d => exact ⟨none, .later key d, nofun⟩
  | _ => exact ⟨none, .other _ _ rfl, nofun⟩

theorem Run.history_of_reads {events : List Event} {P : Binary64 → Prop} (h : Run x events y)
    (hreads : ∀ {x e y}, Step x e y → e ∈ events →
      ∃ reading, Reads x.loop e reading ∧ ∀ t ∈ reading, P t) :
    ∃ log, History x log y ∧ log.filterMap Moment.event? = events ∧
      ∀ t ∈ log.filterMap Moment.reading?, P t := by
  induction h with
  | nil => exact ⟨[], .nil, rfl, nofun⟩
  | snoc _ hs ih =>
    obtain ⟨log, hlog, hevents, htimes⟩ := ih fun hs he => hreads hs (List.mem_append_left _ he)
    obtain ⟨reading, hread, htime⟩ := hreads hs (by simp)
    refine ⟨_, hlog.snoc (.act hs hread), ?_, ?_⟩
    · rw [filterMap_concat, hevents]
      rfl
    · rw [filterMap_concat]
      refine List.forall_mem_append.mpr ⟨htimes, fun t ht => htime t ?_⟩
      exact Option.mem_toList.mp ht

/-- However the two parties take turns, that is a history. -/
theorem Run.history {events : List Event} (h : Run x events y) :
    ∃ log, History x log y ∧ log.filterMap Moment.event? = events := by
  obtain ⟨log, hlog, hevents, _⟩ := h.history_of_reads (P := fun _ => True) fun hs _ => by
    obtain ⟨reading, hread⟩ := hs.reads
    exact ⟨reading, hread, fun _ _ => trivial⟩
  exact ⟨log, hlog, hevents⟩

theorem History.last (h : History x (log ++ [m]) z) : ∃ y, History x log y ∧ Happens y m z := by
  generalize hall : log ++ [m] = all at h
  cases h with
  | nil => exact absurd hall (by simp)
  | snoc h hm =>
    obtain ⟨rfl, hsame⟩ := List.append_inj' hall rfl
    cases hsame
    exact ⟨_, h, hm⟩

theorem History.of_append (h : History x (before ++ after) z) : ∃ y, History x before y := by
  induction after using List.reverseRecOn generalizing z with
  | nil => exact ⟨z, List.append_nil before ▸ h⟩
  | append_singleton after m ih =>
    rw [← List.append_assoc] at h
    obtain ⟨y, hy, _⟩ := h.last
    exact ih hy

/-! ## The queue -/

/-- Entries come in behind and are taken in front. -/
theorem Happens.queue (h : Happens x m y) :
    x.keyboard.queue ++ m.entry?.toList = m.gone?.toList ++ y.keyboard.queue := by
  cases h with
  | put k r l entry => rfl
  | act hs hreads =>
    cases hs with
    | offer k l key =>
      rcases offer_cases k key with ⟨hlt, ho⟩ | ⟨hge, ho⟩ <;> rw [ho]
      · simp [Moment.entry?, Moment.gone?, Keyboard.capacity, hlt]
      · simp [Moment.entry?, Moment.gone?, Keyboard.capacity, Nat.not_lt.mpr hge]
    | take k r d time key rest head => simp [Moment.entry?, Moment.gone?, head]
    | quit k r d rest head => simp [Moment.entry?, Moment.gone?, head]
    | close k r => exact List.append_nil _
    | _ => simp [Moment.entry?, Moment.gone?]

theorem History.queue (h : History x log y) :
    x.keyboard.queue ++ entered log = gone log ++ y.keyboard.queue := by
  induction h with
  | nil => exact List.append_nil _
  | snoc _ hm ih =>
    unfold entered gone at ih ⊢
    rw [filterMap_concat, filterMap_concat, ← List.append_assoc, ih, List.append_assoc, hm.queue,
      List.append_assoc]

/-! ## The visits -/

theorem looks_concat (log : List Moment) (m : Moment) :
    looks (log ++ [m]) = noted (looks log) m :=
  List.foldl_concat noted [] m log

theorem noted_of_idle (hcall : m.calls = false) (hkey : m.key? = none)
    (hreading : m.reading? = none) : noted ls m = ls := by
  unfold noted
  rw [hcall]
  cases ls with
  | nil => rfl
  | cons look ls => simp [Look.add, hkey, hreading]

theorem noted_took (look : Look) (ls : List Look) :
    noted (look :: ls) (.acted (.took key deadline) reading) =
      look.add (.acted (.took key deadline) reading) :: ls := rfl

/-- What happens in a visit is noted with it. -/
theorem foldl_noted (look : Look) (ls : List Look) (hquiet : ∀ m ∈ during, m.calls = false) :
    during.foldl noted (look :: ls) =
      ⟨look.keys ++ during.filterMap Moment.key?,
        look.readings ++ during.filterMap Moment.reading?⟩ :: ls := by
  induction during using List.reverseRecOn with
  | nil => simp
  | append_singleton during m ih =>
    have hm : m.calls = false := hquiet m (by simp)
    rw [List.foldl_concat, ih fun m hm => hquiet m (List.mem_append_left _ hm), filterMap_concat,
      filterMap_concat, ← List.append_assoc, ← List.append_assoc, noted, hm]
    rfl

/-- The first key of a visit makes it read the clock, and the later ones do not. -/
theorem proper_take (hlook : look.Proper) (hreads : Reads (.taking look.deadline?)
      (.took key deadline) reading) :
    (look.add (.acted (.took key deadline) reading)).Proper ∧
    (look.add (.acted (.took key deadline) reading)).deadline? = some deadline ∧
    (look.keys ≠ [] → look.deadline? = some deadline) := by
  obtain ⟨keys, readings⟩ := look
  rcases hlook with ⟨rfl, rfl⟩ | ⟨hkeys, time, rfl⟩
  · cases hreads with
    | first _ time => exact ⟨.inr ⟨List.cons_ne_nil _ _, time, rfl⟩, rfl, fun h => absurd rfl h⟩
    | other _ _ nothing => cases nothing
  · cases hreads with
    | later =>
      have hmore : keys ++ [key] ≠ [] := List.append_ne_nil_of_left_ne_nil hkeys _
      exact ⟨.inr ⟨hmore, time, rfl⟩, rfl, fun _ => rfl⟩
    | other _ _ nothing => cases nothing

theorem latest?_of_mem (h : key ∈ look.keys) (ls : List Look) :
    latest? key (look :: ls) = some look :=
  List.find?_cons_of_pos (decide_eq_true h)

theorem latest?_of_notMem (h : key ∉ look.keys) (ls : List Look) :
    latest? key (look :: ls) = latest? key ls :=
  List.find?_cons_of_neg (ne_true_of_eq_false (decide_eq_false h))

theorem mem_of_latest? (h : latest? key ls = some look) : look ∈ ls ∧ key ∈ look.keys := by
  unfold latest? at h
  exact ⟨List.mem_of_find?_eq_some h, by simpa using List.find?_some h⟩

/-- A key that is taken is held as its visit says, the others as before. -/
theorem latest?_take (hlook : look.Proper) (hreads : Reads (.taking look.deadline?)
      (.took key deadline) reading) (ls : List Look) (other : Fin 16) :
    (latest? other (look.add (.acted (.took key deadline) reading) :: ls)).bind Look.deadline? =
      if key = other then some deadline else (latest? other (look :: ls)).bind Look.deadline? := by
  obtain ⟨_, hdeadline, hsame⟩ := proper_take hlook hreads
  have hmem : other ∈ (look.add (.acted (.took key deadline) reading)).keys ↔
      other ∈ look.keys ∨ other = key := by
    simp [Look.add, Event.key?, eq_comm]
  by_cases hkey : key = other
  · rw [if_pos hkey, latest?_of_mem (hmem.mpr (.inr hkey.symm))]
    exact hdeadline
  · rw [if_neg hkey]
    -- A key that this visit took before has the same deadline still.
    by_cases hold : other ∈ look.keys
    · rw [latest?_of_mem (hmem.mpr (.inl hold)), latest?_of_mem hold]
      exact hdeadline.trans (hsame (List.ne_nil_of_mem hold)).symm
    · have hnot := mt hmem.mp (not_or.mpr ⟨hold, fun h => hkey h.symm⟩)
      rw [latest?_of_notMem hnot, latest?_of_notMem hold]

/-- What holds of the deadlines at any time. -/
structure Holding (log : List Moment) (s : Exchange) : Prop where
  deadline : ∀ key, s.keyboard.deadlines.get key =
    ((latest? key (looks log)).bind Look.deadline?).getD 0
  proper : ∀ look ∈ looks log, look.Proper
  visiting : ∀ d, s.loop = .taking d → ∃ look ls, looks log = look :: ls ∧ look.deadline? = d

theorem Holding.start (keymap : Keymap) : Holding [] (start keymap) where
  deadline key := by simp [Exchange.start, Keyboard.ofKeymap, looks, latest?, Vector.get]
  proper := nofun
  visiting := nofun

theorem Holding.idle (h : Holding log x) (hlooks : noted (looks log) m = looks log)
    (hdeadline : ∀ key, y.keyboard.deadlines.get key = x.keyboard.deadlines.get key)
    (hloop : y.loop = x.loop ∨ y.loop = .away) : Holding (log ++ [m]) y := by
  rw [← looks_concat] at hlooks
  refine ⟨fun key => ?_, ?_, fun d hd => ?_⟩
  · rw [hlooks, hdeadline, h.deadline]
  · rw [hlooks]
    exact h.proper
  · rw [hlooks]
    rcases hloop with hsame | haway
    · exact h.visiting d (hsame ▸ hd)
    · rw [haway] at hd
      cases hd

theorem Holding.call (h : Holding log x) (hs : Step x .called y) :
    Holding (log ++ [.acted .called none]) y := by
  cases hs
  refine ⟨fun key => ?_, ?_, fun d hd => ?_⟩
  · rw [looks_concat]
    exact h.deadline key
  · rw [looks_concat]
    exact List.forall_mem_cons.mpr ⟨.inl ⟨rfl, rfl⟩, h.proper⟩
  · cases hd
    exact ⟨⟨[], []⟩, looks log, looks_concat _ _, rfl⟩

theorem Holding.take (h : Holding log x) (hs : Step x (.took key deadline) y)
    (hreads : Reads x.loop (.took key deadline) reading) :
    Holding (log ++ [.acted (.took key deadline) reading]) y := by
  have hloop : ∃ d, x.loop = .taking d ∧ y.loop = .taking (some deadline) := by
    cases hs
    exact ⟨_, rfl, rfl⟩
  obtain ⟨d, hx, hy⟩ := hloop
  obtain ⟨look, ls, hlooks, rfl⟩ := h.visiting d hx
  rw [hx] at hreads
  have hlook : look.Proper := h.proper look (hlooks ▸ List.mem_cons_self)
  have hnext : looks (log ++ [.acted (.took key deadline) reading]) =
      look.add (.acted (.took key deadline) reading) :: ls := by
    rw [looks_concat, hlooks, noted_took]
  obtain ⟨hproper, htaken, _⟩ := proper_take hlook hreads
  refine ⟨fun other => ?_, ?_, fun d hd => ?_⟩
  · rw [hs.deadline, hnext, latest?_take hlook hreads, h.deadline, hlooks, Event.deadline?]
    split <;> rfl
  · rw [hnext]
    exact List.forall_mem_cons.mpr
      ⟨hproper, fun other hother => h.proper other (hlooks ▸ List.mem_cons_of_mem _ hother)⟩
  · rw [hy] at hd
    cases hd
    exact ⟨_, ls, hnext, htaken⟩

theorem Holding.step (h : Holding log x) (hm : Happens x m y) : Holding (log ++ [m]) y := by
  cases hm with
  | put k r l entry => exact h.idle (noted_of_idle rfl rfl rfl) (fun _ => rfl) (.inl rfl)
  | act hs hreads =>
    have hdeadline := hs.deadline
    cases hs with
    | call k r =>
      cases hreads
      exact h.call (.call k r)
    | take k r d time key rest head => exact h.take (.take k r d time key rest head) hreads
    | look | read | offer | mark =>
      cases hreads
      exact h.idle (noted_of_idle rfl rfl rfl) hdeadline (.inl rfl)
    | quit | leave | close =>
      cases hreads
      exact h.idle (noted_of_idle rfl rfl rfl) hdeadline (.inr rfl)

theorem History.holding (h : History (start keymap) log s) : Holding log s := by
  induction h with
  | nil => exact .start keymap
  | snoc _ hm ih => exact ih.step hm

/-! ## Visits without interruption -/

theorem Happens.coupled (h : Happens x m y) (hx : Coupled x.keyboard x.reader) :
    Coupled y.keyboard y.reader := by
  unfold Coupled at hx ⊢
  cases h with
  | put k r l entry => exact hx
  | act hs hreads =>
    cases hs with
    | look k l => simpa [looked_ne_marking k] using hx
    | read k l char => exact decide_eq_true_iff
    | offer k l key =>
      rcases offer_cases k key with ⟨_, ho⟩ | ⟨_, ho⟩ <;> rw [ho] <;> simpa using hx
    | mark k l room => simp
    | _ => exact hx

theorem History.coupled (h : History (start keymap) log s) : Coupled s.keyboard s.reader := by
  induction h with
  | nil => exact ⟨nofun, nofun⟩
  | snoc _ hm ih => exact hm.coupled ih

theorem History.process (h : History (start keymap) log s) (haway : s.loop = .away)
    (time : Binary64) :
    ∃ moments r, History s moments ⟨(s.keyboard.process time).2, r, .away⟩ ∧
      moments.filterMap Moment.answer? = [(s.keyboard.process time).1] ∧
      ∀ t ∈ moments.filterMap Moment.reading?, t = time := by
  obtain ⟨k, reader, l⟩ := s
  cases haway
  obtain ⟨events, r, hrun, hanswer, hsame⟩ := run_process h.coupled time
  obtain ⟨moments, hmoments, hevents, htimes⟩ := hrun.history_of_reads (P := (· = time))
    fun hs he => hs.reads_at time fun key d htook => hsame key d (htook ▸ he)
  have hanswers : moments.filterMap Moment.answer? = events.filterMap Event.answer? := by
    rw [← hevents, List.filterMap_filterMap]
    rfl
  exact ⟨moments, r, hmoments, hanswers.trans hanswer, htimes⟩

/-! ## One visit -/

theorem gone_eq (hquiet : ∀ m ∈ during, m.returns = false) :
    gone during = (during.filterMap Moment.key?).map some := by
  rw [gone, List.map_filterMap]
  refine List.filterMap_congr fun m hm => ?_
  have hreturns := hquiet m hm
  cases m with
  | put entry => rfl
  | acted e reading =>
    cases e with
    | returned quit => cases hreturns
    | _ => rfl

theorem looks_visit (before : List Moment) (quit : Bool)
    (hquiet : ∀ m ∈ during, m.calls = false) :
    looks (before ++ .acted .called none :: (during ++ [.acted (.returned quit) none])) =
      ⟨during.filterMap Moment.key?, during.filterMap Moment.reading?⟩ :: looks before := by
  have hall : ∀ m ∈ during ++ [.acted (.returned quit) none], m.calls = false :=
    List.forall_mem_append.mpr ⟨hquiet, by simp [Moment.calls]⟩
  have hvisit := foldl_noted ⟨[], []⟩ (looks before) hall
  simp only [filterMap_concat, List.nil_append] at hvisit
  unfold looks
  rw [List.foldl_append, List.foldl_cons]
  exact hvisit.trans (by simp [Moment.reading?, Event.key?, looks])

theorem entered_visit {quit : Bool} :
    entered (before ++ .acted .called none :: (during ++ [.acted (.returned quit) none])) =
      entered before ++ entered during := by
  unfold entered
  rw [List.filterMap_append, List.filterMap_cons_none rfl, filterMap_concat]
  exact congrArg _ (List.append_nil _)

theorem gone_visit {quit : Bool} (hquiet : ∀ m ∈ during, m.returns = false) :
    gone (before ++ .acted .called none :: (during ++ [.acted (.returned quit) none])) =
      gone before ++ ((during.filterMap Moment.key?).map some ++ if quit then [none] else []) := by
  rw [← gone_eq hquiet]
  unfold gone
  rw [List.filterMap_append, List.filterMap_cons_none rfl, filterMap_concat]
  cases quit <;> rfl

theorem History.queue_visit {quit : Bool} (hx : History (start keymap) before x)
    (h : History (start keymap)
      (before ++ .acted .called none :: (during ++ [.acted (.returned quit) none])) s)
    (hquiet : ∀ m ∈ during, m.returns = false) :
    x.keyboard.queue ++ entered during = (during.filterMap Moment.key?).map some ++
      (if quit then [none] else []) ++ s.keyboard.queue := by
  have hqueue := h.queue
  rw [entered_visit, gone_visit hquiet, ← List.append_assoc, hx.queue, List.append_assoc,
    List.append_assoc] at hqueue
  exact List.append_cancel_left hqueue

theorem History.queue_of_returned (h : History x (log ++ [.acted (.returned false) none]) s) :
    s.keyboard.queue = [] := by
  obtain ⟨y, _, hm⟩ := h.last
  cases hm with
  | act hs _ =>
    cases hs with
    | leave k r d nothing => exact nothing

theorem Holding.keyDown_iff (h : Holding log s) {t : Binary64} (ht : Binary64.le 0 t = true) :
    s.keyboard.keyDown t key = true ↔
      ∃ look time, latest? key (looks log) = some look ∧ look.readings = [time] ∧
        t.lt (time.add Keyboard.holdTime) = true := by
  rw [Keyboard.keyDown, h.deadline]
  cases hlatest : latest? key (looks log) with
  | none =>
    constructor
    · intro hlt
      have hnot := Binary64.le_eq_false_of_lt hlt
      rw [Option.bind_none, Option.getD_none, ht] at hnot
      cases hnot
    · rintro ⟨_, _, habsurd, _⟩
      cases habsurd
  | some look =>
    obtain ⟨hlook, hkey⟩ := mem_of_latest? hlatest
    obtain ⟨time, hreading⟩ := (h.proper look hlook).reading_of_mem hkey
    rw [Option.bind_some, Look.deadline?_of_readings hreading, Option.getD_some]
    constructor
    · exact fun hlt => ⟨look, time, rfl, hreading, hlt⟩
    · rintro ⟨_, _, hsame, hother, hlt⟩
      cases hsame
      rw [hreading] at hother
      cases hother
      exact hlt

/-- Whatever is typed, queued and looked at, and whatever the clock shows: a key counts as held down
exactly if a visit took it and the latest that did made its one reading less than the holding time
ago. A visit reads the clock at most once, namely if it takes a key. It takes the keys in front of
the first quit mark, or all that there are, holds all of them until the same time and leaves the
other keys alone. A visit without interruption is what the keyboard does at once. -/
theorem keyDown_iff_latest (h : History (start keymap) log s) :
    (∀ key t, Binary64.le 0 t = true →
      (s.keyboard.keyDown t key = true ↔
        ∃ look time, latest? key (looks log) = some look ∧ look.readings = [time] ∧
          t.lt (time.add Keyboard.holdTime) = true)) ∧
    (∀ look ∈ looks log, look.Proper) ∧
    (∀ before during quit,
      log = before ++ .acted .called none :: (during ++ [.acted (.returned quit) none]) →
      (∀ m ∈ during, m.calls = false ∧ m.returns = false) →
      ∃ x, History (start keymap) before x ∧
        let look : Look := ⟨during.filterMap Moment.key?, during.filterMap Moment.reading?⟩
        looks log = look :: looks before ∧
        x.keyboard.queue ++ entered during =
          look.keys.map some ++ (if quit then [none] else []) ++ s.keyboard.queue ∧
        (quit = false → s.keyboard.queue = []) ∧
        (∀ key ∈ look.keys, ∀ time, look.readings = [time] →
          s.keyboard.deadlines.get key = time.add Keyboard.holdTime) ∧
        (∀ key ∉ look.keys,
          s.keyboard.deadlines.get key = x.keyboard.deadlines.get key)) ∧
    (s.loop = .away → ∀ time,
      ∃ moments r, History s moments ⟨(s.keyboard.process time).2, r, .away⟩ ∧
        moments.filterMap Moment.answer? = [(s.keyboard.process time).1] ∧
        ∀ t ∈ moments.filterMap Moment.reading?, t = time) := by
  have hholding := h.holding
  refine ⟨fun key t ht => hholding.keyDown_iff ht, hholding.proper, ?_, h.process⟩
  rintro before during quit rfl hquiet
  -- The visit is noted in front of those before it, so its keys are found there and no others.
  obtain ⟨x, hx⟩ := h.of_append
  have hlooks := looks_visit before quit fun m hm => (hquiet m hm).1
  refine ⟨x, hx, hlooks, hx.queue_visit h fun m hm => (hquiet m hm).2, ?_, ?_, ?_⟩
  · rintro rfl
    rw [← List.cons_append, ← List.append_assoc] at h
    exact h.queue_of_returned
  · intro key hkey time htime
    rw [hholding.deadline, hlooks, latest?_of_mem hkey, Option.bind_some,
      Look.deadline?_of_readings htime, Option.getD_some]
  · intro key hkey
    rw [hholding.deadline, hlooks, latest?_of_notMem hkey, hx.holding.deadline]

/-- A key is queued, and a visit takes it. -/
def tap (key : Fin 16) (time : Binary64) : List Moment :=
  [.put (some key), .acted .called none,
    .acted (.took key (time.add Keyboard.holdTime)) (some time), .acted (.returned false) none]

theorem History.tap {r : Phase} (h : History x log ⟨k, r, .away⟩) (hempty : k.queue = [])
    (key : Fin 16) (time : Binary64) :
    ∃ k', History x (log ++ tap key time) ⟨k', r, .away⟩ ∧ k'.queue = [] := by
  have hput := h.snoc (.put k r .away (some key))
  have hcall := hput.snoc (.act (.call _ r) (.other _ _ rfl))
  have hone : k.queue ++ [some key] = [some key] := by rw [hempty]; rfl
  have htake := hcall.snoc (.act (.take _ r none time key [] hone) (.first key time))
  have hleave := htake.snoc (.act (.leave _ r _ rfl) (.other _ _ rfl))
  simp only [List.append_assoc, List.cons_append, List.nil_append] at hleave
  exact ⟨_, hleave, rfl⟩

/-- The clock was set back between two visits, and the later one counts. -/
theorem keyDown_iff_latest_setBack : ∃ s,
    History (start letters) (tap firstKey 1 ++ tap firstKey 0) s ∧
      Binary64.le 0 1 = true ∧ s.keyboard.keyDown 0 firstKey = true ∧
        s.keyboard.keyDown 1 firstKey = false := by
  obtain ⟨k, hfirst, hempty⟩ := (History.nil (x := start letters)).tap rfl firstKey 1
  obtain ⟨_, hsecond, _⟩ := hfirst.tap hempty firstKey 0
  have hlatest : latest? firstKey (looks (tap firstKey 1 ++ tap firstKey 0)) =
    some ⟨[firstKey], [0]⟩ := rfl
  have hle : Binary64.le 0 1 = true := by decide +kernel
  obtain ⟨hdown, _⟩ := keyDown_iff_latest hsecond
  refine ⟨_, hsecond, hle, ?_, ?_⟩
  · refine (hdown firstKey 0 (by decide +kernel)).mpr ⟨_, 0, hlatest, rfl, by decide +kernel⟩
  · rw [Bool.eq_false_iff]
    intro hheld
    obtain ⟨look, time, hsame, hreading, hlt⟩ := (hdown firstKey 1 hle).mp hheld
    cases hlatest.symm.trans hsame
    cases hreading
    revert hlt
    decide +kernel

end Exchange

end Chip8.Terminal
