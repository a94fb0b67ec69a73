import Chip8.Proofs.Terminal.Exchange

/-! # Nothing is reordered and no quit is lost

However the reader of a keyboard and the loop take turns, the loop takes the keys in the order in
which they were typed. A key is lost only to a full queue. A quit mark is never lost: the reader
waits with it, nothing comes behind it, and the visit of the loop that comes to it ends with it. -/

namespace Chip8.Text

/-- No capital has a control character as its lower case. -/
theorem lowercase?_eq_some_iff {code c : Nat} (hc : c < 32) :
    lowercase? code = some c ↔ code = c := by
  have hruns : ∀ r ∈ caseRuns, 32 ≤ r.first ∧ 32 ≤ (r.first : Int) + r.shift := by
    decide +kernel
  have hcovers : ∀ r ∈ caseRuns, r.covers code = true →
      32 ≤ code ∧ 32 ≤ (code + r.shift).toNat := by
    intro r hr hcover
    have hbounds := hruns r hr
    simp only [CaseRun.covers, Bool.and_eq_true, decide_eq_true_iff] at hcover
    omega
  unfold lowercase?
  by_cases hdot : code = dottedCapitalI
  · rw [if_pos hdot]
    unfold dottedCapitalI at hdot
    constructor
    · intro h
      cases h
    · omega
  · rw [if_neg hdot]
    cases hfind : caseRuns.find? (·.covers code) with
    | none => exact Option.some_inj
    | some r =>
      have hcover : r.covers code = true := by simpa using List.find?_some hfind
      obtain ⟨hcode, hlower⟩ := hcovers r (List.mem_of_find?_eq_some hfind) hcover
      rw [Option.some_inj]
      omega

end Chip8.Text

namespace Chip8.Terminal

/-- The key that a character is typed for, the one that its lower case stands for. The characters
that end the program are typed for none. -/
def typed? (keymap : Keymap) (char : Int) : Option (Fin 16) :=
  match Keymap.fold char with
  | .ok code => if code ∈ Keyboard.quitCharacters then none else keymap.key? code
  | .error _ => none

def Phase.inHand : Phase → List (Fin 16)
  | .offering key => [key]
  | _ => []

/-- Only a number that a character can have is folded. -/
theorem fold_of_not_character {char : Int} (h : ¬ (0 ≤ char ∧ char < Keymap.characterCount)) :
    ∃ f, Keymap.fold char = .error f := by
  unfold Keymap.fold
  split
  · exact ⟨_, rfl⟩
  · rw [if_pos (by omega)]
    exact ⟨_, rfl⟩

theorem inHand_heard (keymap : Keymap) (char : Int) :
    (heard keymap char).inHand = (typed? keymap char).toList := by
  unfold heard typed?
  by_cases hneg : char < 0
  · rw [if_pos hneg]
    obtain ⟨f, hf⟩ := fold_of_not_character fun h => absurd h.1 (Int.not_le.mpr hneg)
    rw [hf]
    rfl
  · rw [if_neg hneg]
    cases Keymap.fold char with
    | error f => rfl
    | ok code =>
      by_cases hquit : code ∈ Keyboard.quitCharacters
      · simp [hquit, Phase.inHand]
      · simp only [if_neg hquit]
        cases keymap.key? code <;> rfl

theorem fold_eq_ok_iff {char : Int} {c : Nat} (hc : c < 32) :
    Keymap.fold char = .ok (c : Int) ↔ char = c := by
  by_cases hrange : 0 ≤ char ∧ char < Keymap.characterCount
  · have hlarge : ¬ (char < -Keymap.codeLimit ∨ Keymap.codeLimit ≤ char) := by
      unfold Keymap.characterCount at hrange
      unfold Keymap.codeLimit
      omega
    have hlower : Text.lowercase? char.toNat = some c ↔ char.toNat = c :=
      Text.lowercase?_eq_some_iff hc
    unfold Keymap.fold
    rw [if_neg hlarge, if_neg (by omega)]
    cases hl : Text.lowercase? char.toNat with
    | none =>
      rw [hl] at hlower
      have hne : char.toNat ≠ c := fun h => nomatch hlower.mpr h
      simp only [reduceCtorEq, false_iff]
      omega
    | some lower =>
      rw [hl, Option.some_inj] at hlower
      simp only [Except.ok.injEq, Int.natCast_inj, hlower]
      omega
  · obtain ⟨f, hf⟩ := fold_of_not_character hrange
    rw [hf]
    unfold Keymap.characterCount at hrange
    simp only [reduceCtorEq, false_iff]
    omega

theorem heard_eq_marking_iff (keymap : Keymap) (char : Int) :
    heard keymap char = .marking ↔ char = 27 ∨ char = 3 := by
  have hesc : Keymap.fold char = .ok 27 ↔ char = 27 := fold_eq_ok_iff (c := 27) (by omega)
  have hctrl : Keymap.fold char = .ok 3 ↔ char = 3 := fold_eq_ok_iff (c := 3) (by omega)
  rw [← hesc, ← hctrl]
  unfold heard
  by_cases hneg : char < 0
  · obtain ⟨f, hf⟩ := fold_of_not_character fun h => absurd h.1 (Int.not_le.mpr hneg)
    simp [hneg, hf]
  · rw [if_neg hneg]
    cases Keymap.fold char with
    | error f => simp
    | ok code =>
      by_cases hquit : code ∈ Keyboard.quitCharacters
      · simp only [if_pos hquit, Except.ok.injEq, true_iff]
        simpa [Keyboard.quitCharacters] using hquit
      · have hother : ¬ (code = 27 ∨ code = 3) := by
          simpa [Keyboard.quitCharacters] using hquit
        simp only [if_neg hquit, Except.ok.injEq, iff_false_right hother]
        cases keymap.key? code <;> simp

/-! ## What the events say -/

def Event.offer? : Event → Option (Fin 16 × Nat)
  | .offered key queued => some (key, queued)
  | _ => none

def Event.key? : Event → Option (Fin 16)
  | .took key _ => some key
  | _ => none

def Event.deadline? (key : Fin 16) : Event → Option Binary64
  | .took key' deadline => if key' = key then some deadline else none
  | _ => none

/-- The keys of the characters that were read. -/
def typed (keymap : Keymap) (events : List Event) : List (Fin 16) :=
  (events.filterMap Event.char?).filterMap (typed? keymap)

/-- The keys that were offered, each with the number of entries that were queued then. -/
def offers (events : List Event) : List (Fin 16 × Nat) := events.filterMap Event.offer?

/-- An offer is lost if and only if the queue is full. -/
def accepted? (offer : Fin 16 × Nat) : Option (Fin 16) :=
  if offer.2 = 16 then none else some offer.1

def accepted (events : List Event) : List (Fin 16) := (offers events).filterMap accepted?

def taken (events : List Event) : List (Fin 16) := events.filterMap Event.key?

/-- The deadline that a key got when it was last taken. -/
def lastDeadline (events : List Event) (key : Fin 16) : Binary64 :=
  ((events.filterMap (Event.deadline? key)).getLast?).getD 0

/-- What is behind all keys in the queue. -/
def queuedMark (events : List Event) : List (Option (Fin 16)) :=
  if .marked ∈ events ∧ .returned true ∉ events then [none] else []

theorem filterMap_concat {α β : Type} (f : α → Option β) (as : List α) (a : α) :
    (as ++ [a]).filterMap f = as.filterMap f ++ (f a).toList := by
  rw [List.filterMap_append]
  cases hf : f a <;> simp [hf]

@[simp] theorem typed_concat (keymap : Keymap) (events : List Event) (e : Event) :
    typed keymap (events ++ [e]) =
      typed keymap events ++ (e.char?.bind (typed? keymap)).toList := by
  unfold typed
  rw [List.filterMap_filterMap, List.filterMap_filterMap, filterMap_concat]

@[simp] theorem offers_concat (events : List Event) (e : Event) :
    offers (events ++ [e]) = offers events ++ e.offer?.toList :=
  filterMap_concat _ _ _

@[simp] theorem accepted_concat (events : List Event) (e : Event) :
    accepted (events ++ [e]) = accepted events ++ (e.offer?.bind accepted?).toList := by
  unfold accepted offers
  rw [List.filterMap_filterMap, List.filterMap_filterMap, filterMap_concat]

@[simp] theorem taken_concat (events : List Event) (e : Event) :
    taken (events ++ [e]) = taken events ++ e.key?.toList :=
  filterMap_concat _ _ _

theorem lastDeadline_concat (events : List Event) (e : Event) (key : Fin 16) :
    lastDeadline (events ++ [e]) key = (e.deadline? key).getD (lastDeadline events key) := by
  unfold lastDeadline
  rw [filterMap_concat]
  cases e.deadline? key <;> simp

theorem queuedMark_concat {events : List Event} {e : Event} (hmark : e ≠ .marked)
    (hquit : e ≠ .returned true) : queuedMark (events ++ [e]) = queuedMark events := by
  simp [queuedMark, hmark.symm, hquit.symm]

theorem accepted_sublist (events : List Event) :
    (accepted events).Sublist ((offers events).map Prod.fst) := by
  unfold accepted
  induction offers events with
  | nil => exact .slnil
  | cons o rest ih =>
    by_cases hfull : o.2 = 16
    · have hlost : accepted? o = none := if_pos hfull
      rw [List.filterMap_cons_none hlost]
      exact ih.cons _
    · have hkept : accepted? o = some o.1 := if_neg hfull
      rw [List.filterMap_cons_some hkept]
      exact ih.cons_cons _

theorem keys_of_queue {events : List Event} {keys : List (Fin 16)} :
    (keys.map some ++ queuedMark events).reduceOption = keys := by
  have hmark : (queuedMark events).reduceOption = [] := by
    unfold queuedMark
    split <;> rfl
  rw [List.reduceOption_append, hmark]
  simp [List.reduceOption]

namespace Exchange

variable {keymap : Keymap} {events before after : List Event} {s x y : Exchange} {e : Event}

/-- What holds of an exchange at any time. -/
structure Orderly (keymap : Keymap) (events : List Event) (s : Exchange) : Prop where
  keymap_eq : s.keyboard.keymap = keymap
  offered : (offers events).map Prod.fst ++ s.reader.inHand = typed keymap events
  queued : ∃ keys, s.keyboard.queue = keys.map some ++ queuedMark events ∧
    taken events ++ keys = accepted events
  room : s.keyboard.queue.length ≤ 16
  quit : (.read 27 ∈ events ∨ .read 3 ∈ events) ↔ s.reader = .marking ∨ .marked ∈ events
  ended : .marked ∈ events → s.reader = .ended
  marked : .returned true ∈ events → .marked ∈ events
  deadline : ∀ key, s.keyboard.deadlines.get key = lastDeadline events key

theorem Orderly.start (keymap : Keymap) : Orderly keymap [] (start keymap) where
  keymap_eq := rfl
  offered := rfl
  queued := ⟨[], rfl, rfl⟩
  room := Nat.zero_le _
  quit := by simp [Exchange.start]
  ended := nofun
  marked := nofun
  deadline key := by simp [Exchange.start, Keyboard.ofKeymap, lastDeadline, Vector.get]

/-- The oldest entry is a key, or the mark with nothing behind it. -/
theorem queue_head {entry : Option (Fin 16)} {rest : List (Option (Fin 16))}
    {keys : List (Fin 16)} (h : entry :: rest = keys.map some ++ queuedMark events) :
    (∃ key keys', entry = some key ∧ keys = key :: keys' ∧
      rest = keys'.map some ++ queuedMark events) ∨
    (entry = none ∧ keys = [] ∧ rest = [] ∧ .marked ∈ events ∧ .returned true ∉ events) := by
  cases keys with
  | nil =>
    unfold queuedMark at h
    split at h
    · rename_i hmark
      cases h
      exact .inr ⟨rfl, rfl, rfl, hmark⟩
    · cases h
  | cons key keys' =>
    cases h
    exact .inl ⟨key, keys', rfl, rfl, rfl⟩

/-- Taking a key gives it a deadline, and nothing else gives it one. -/
theorem Step.deadline (hs : Step x e y) (key : Fin 16) : y.keyboard.deadlines.get key =
    (e.deadline? key).getD (x.keyboard.deadlines.get key) := by
  cases hs with
  | take k r d time key' rest head =>
    have hset (deadline : Binary64) : (k.deadlines.setIfInBounds key' deadline).get key =
        if key'.val = key.val then deadline else k.deadlines.get key :=
      Vector.getElem_setIfInBounds key.isLt
    rw [hset]
    simp only [Event.deadline?, Fin.ext_iff]
    split <;> rfl
  | offer k l key' =>
    rcases offer_cases k key' with ⟨_, ho⟩ | ⟨_, ho⟩ <;> rw [ho] <;> rfl
  | _ => rfl

variable (h : Orderly keymap events x) (hs : Step x e y)
include h hs

theorem Orderly.offered_step :
    (offers (events ++ [e])).map Prod.fst ++ y.reader.inHand = typed keymap (events ++ [e]) := by
  have hkeymap := h.keymap_eq
  have hoffered := h.offered
  cases hs with
  | look k l =>
    have hnone : (if k.stopping then Phase.ended else .listening).inHand = [] := by
      split <;> rfl
    rw [hnone]
    simpa [Event.offer?, Event.char?, Phase.inHand] using hoffered
  | read k l char =>
    have hhand : (heard k.keymap char).inHand = (typed? keymap char).toList :=
      hkeymap ▸ inHand_heard k.keymap char
    rw [hhand]
    simpa [Event.offer?, Event.char?, Phase.inHand] using hoffered
  | offer k l key => simpa [Event.offer?, Event.char?, Phase.inHand] using hoffered
  | mark k l room => simpa [Event.offer?, Event.char?, Phase.inHand] using hoffered
  | _ => simpa [Event.offer?, Event.char?] using hoffered

theorem Orderly.room_step : y.keyboard.queue.length ≤ 16 := by
  have hroom := h.room
  cases hs with
  | offer k l key =>
    rcases offer_cases k key with ⟨hlt, ho⟩ | ⟨_, ho⟩ <;> rw [ho]
    · rw [List.length_append]
      exact hlt
    · exact hroom
  | mark k l room =>
    rw [List.length_append]
    exact (hasRoom_iff k).mp room
  | take k r d time key rest head =>
    rw [head] at hroom
    exact Nat.le_of_succ_le hroom
  | quit k r d rest head =>
    rw [head] at hroom
    exact Nat.le_of_succ_le hroom
  | _ => exact hroom

theorem Orderly.ended_step : .marked ∈ events ++ [e] → y.reader = .ended := by
  have hended := h.ended
  intro hmem
  cases hs with
  | mark k l room => rfl
  | look | read | offer => exact absurd (hended (by simpa using hmem)) nofun
  | _ => exact hended (by simpa using hmem)

theorem Orderly.marked_step : .returned true ∈ events ++ [e] → .marked ∈ events ++ [e] := by
  intro hmem
  have hmarked := h.marked
  obtain ⟨keys, hqueue, -⟩ := h.queued
  rw [List.mem_append] at hmem ⊢
  cases hs with
  | quit k r d rest head =>
    rcases queue_head (head ▸ hqueue) with ⟨_, _, he, _⟩ | ⟨_, _, _, hmark, _⟩
    · cases he
    · exact .inl hmark
  | _ => exact .inl (hmarked (by simpa using hmem))

theorem Orderly.queued_step : ∃ keys,
    y.keyboard.queue = keys.map some ++ queuedMark (events ++ [e]) ∧
      taken (events ++ [e]) ++ keys = accepted (events ++ [e]) := by
  have hended := h.ended
  have hmarked := h.marked
  have hroom := h.room
  obtain ⟨keys, hqueue, htaken⟩ := h.queued
  cases hs with
  | offer k l key =>
    -- The reader has not ended, so there is no mark that the key could come behind.
    have hnone : queuedMark events = [] := if_neg fun hmark => nomatch hended hmark.1
    rw [queuedMark_concat (by simp) (by simp), hnone]
    rw [hnone] at hqueue
    rcases offer_cases k key with ⟨hlt, ho⟩ | ⟨hge, ho⟩ <;> rw [ho]
    · refine ⟨keys ++ [key], by simp_all, ?_⟩
      simp [Event.key?, Event.offer?, accepted?, Nat.ne_of_lt hlt, ← htaken]
    · have hfull : k.queue.length = 16 := Nat.le_antisymm hroom hge
      exact ⟨keys, hqueue, by simp [Event.key?, Event.offer?, accepted?, hfull, htaken]⟩
  | mark k l room =>
    have hnot : .marked ∉ events := fun hmem => nomatch hended hmem
    have hnone : queuedMark events = [] := if_neg fun hmark => hnot hmark.1
    have hone : queuedMark (events ++ [.marked]) = [none] :=
      if_pos ⟨by simp, fun hquit => hnot (hmarked (by simpa using hquit))⟩
    refine ⟨keys, ?_, by simpa [Event.key?, Event.offer?] using htaken⟩
    rw [hone]
    simp_all
  | take k r d time key rest head =>
    rw [queuedMark_concat (by simp) (by simp)]
    rcases queue_head (head ▸ hqueue) with ⟨key', keys', he, hk, hrest⟩ | ⟨he, _⟩
    · cases he
      refine ⟨keys', hrest, ?_⟩
      simpa [Event.key?, Event.offer?, hk] using htaken
    · cases he
  | quit k r d rest head =>
    rcases queue_head (head ▸ hqueue) with ⟨_, _, he, _⟩ | ⟨_, hk, hrest, _⟩
    · cases he
    · have hnone : queuedMark (events ++ [.returned true]) = [] := if_neg (by simp)
      refine ⟨[], by rw [hnone, hrest]; rfl, ?_⟩
      simpa [Event.key?, Event.offer?, hk] using htaken
  | _ =>
    rw [queuedMark_concat (by simp) (by simp)]
    exact ⟨keys, hqueue, by simpa [Event.key?, Event.offer?] using htaken⟩

theorem Orderly.deadline_step (key : Fin 16) :
    y.keyboard.deadlines.get key = lastDeadline (events ++ [e]) key := by
  rw [lastDeadline_concat, ← h.deadline key]
  exact hs.deadline key

theorem Orderly.quit_step : (.read 27 ∈ events ++ [e] ∨ .read 3 ∈ events ++ [e]) ↔
    y.reader = .marking ∨ .marked ∈ events ++ [e] := by
  have hquit := h.quit
  have hended := h.ended
  cases hs with
  | look k l =>
    simpa [looked_ne_marking k] using hquit
  | read k l char =>
    have hheard := heard_eq_marking_iff k.keymap char
    have hnot : .marked ∉ events := fun hmem => nomatch hended hmem
    have hnone : .read 27 ∉ events ∧ .read 3 ∉ events :=
      not_or.mp fun hread => (hquit.mp hread).elim nofun hnot
    simp [hheard, hnone, hnot, eq_comm]
  | _ => simpa using hquit

theorem Orderly.keymap_step : y.keyboard.keymap = keymap := by
  have hkeymap := h.keymap_eq
  cases hs with
  | offer k l key =>
    rcases offer_cases k key with ⟨_, ho⟩ | ⟨_, ho⟩ <;> rw [ho] <;> exact hkeymap
  | _ => exact hkeymap

theorem Orderly.step : Orderly keymap (events ++ [e]) y :=
  ⟨h.keymap_step hs, h.offered_step hs, h.queued_step hs, h.room_step hs, h.quit_step hs,
    h.ended_step hs, h.marked_step hs, h.deadline_step hs⟩

omit h hs

theorem Run.orderly (h : Run (start keymap) events s) : Orderly keymap events s := by
  induction h with
  | nil => exact .start keymap
  | snoc _ hs ih => exact ih.step hs

/-! ## What comes after a mark and after the end was asked for -/

theorem Run.offers_of_ended (h : Run x events y) (hx : x.reader = .ended) :
    y.reader = .ended ∧ offers events = [] := by
  induction h with
  | nil => exact ⟨hx, rfl⟩
  | snoc _ hs ih =>
    obtain ⟨hy, hnone⟩ := ih
    cases hs with
    | look | read | offer | mark => cases hy
    | _ => exact ⟨hy, by simp [hnone, Event.offer?]⟩

/-- What a phase has left bounds what the reader still does once it was asked to end. -/
theorem Run.bounded_of_stopping {α : Type} {seen : Event → Option α} {left : Phase → Nat}
    (hleft : ∀ {x e y}, Step x e y → x.keyboard.stopping = true →
      (seen e).toList.length + left y.reader ≤ left x.reader)
    (h : Run x events y) (hx : x.keyboard.stopping = true) :
    y.keyboard.stopping = true ∧
      (events.filterMap seen).length + left y.reader ≤ left x.reader := by
  induction h with
  | nil => exact ⟨hx, by simp⟩
  | snoc _ hs ih =>
    obtain ⟨hy, hbound⟩ := ih
    have hmore := hleft hs hy
    refine ⟨?_, ?_⟩
    · cases hs with
      | offer k l key =>
        rcases offer_cases k key with ⟨_, ho⟩ | ⟨_, ho⟩ <;> rw [ho] <;> exact hy
      | close => rfl
      | _ => exact hy
    · rw [filterMap_concat, List.length_append]
      omega

/-- How many characters a reader may still read that was asked to end. -/
def charsLeft : Phase → Nat
  | .listening => 1
  | _ => 0

theorem charsLeft_heard (keymap : Keymap) (char : Int) : charsLeft (heard keymap char) = 0 := by
  unfold heard
  repeat' split
  all_goals rfl

/-- How many keys it may still offer. -/
def keysLeft : Phase → Nat
  | .listening | .offering _ => 1
  | _ => 0

theorem keysLeft_le (r : Phase) : keysLeft r ≤ 1 := by
  cases r <;> simp [keysLeft]

theorem Run.chars_of_stopping (h : Run x events y) (hx : x.keyboard.stopping = true) :
    (events.filterMap Event.char?).length ≤ charsLeft x.reader := by
  refine Nat.le_of_add_right_le (h.bounded_of_stopping ?_ hx).2
  intro x e y hs hstop
  cases hs with
  | look k l =>
    rw [if_pos hstop]
    exact Nat.zero_le _
  | read k l char =>
    rw [charsLeft_heard]
    exact Nat.le_refl _
  | _ => simp [Event.char?, charsLeft]

theorem Run.keys_of_stopping (h : Run x events y) (hx : x.keyboard.stopping = true) :
    (offers events).length ≤ keysLeft x.reader := by
  refine Nat.le_of_add_right_le (h.bounded_of_stopping ?_ hx).2
  intro x e y hs hstop
  cases hs with
  | look k l =>
    rw [if_pos hstop]
    exact Nat.zero_le _
  | read k l char => exact Nat.le_trans (Nat.le_of_eq (Nat.zero_add _)) (keysLeft_le _)
  | _ => simp [Event.offer?, keysLeft]

theorem Run.after_close (h : Run x (before ++ .closed :: after) y) :
    (after.filterMap Event.char?).length ≤ 1 ∧ (offers after).length ≤ 1 := by
  obtain ⟨_, z, _, hs, hafter⟩ := h.at_event
  have hstop : z.keyboard.stopping = true := by
    cases hs
    rfl
  have hchars : charsLeft z.reader ≤ 1 := by
    cases z.reader <;> simp [charsLeft]
  exact ⟨Nat.le_trans (hafter.chars_of_stopping hstop) hchars,
    Nat.le_trans (hafter.keys_of_stopping hstop) (keysLeft_le _)⟩

theorem Run.after_mark (h : Run x (before ++ .marked :: after) y) : offers after = [] := by
  obtain ⟨_, z, _, hs, hafter⟩ := h.at_event
  have hended : z.reader = .ended := by
    cases hs
    rfl
  exact (hafter.offers_of_ended hended).2

theorem Run.no_answer_before_mark (h : Run (start keymap) (before ++ .marked :: after) s) :
    .returned true ∉ before := by
  intro hmem
  obtain ⟨x, _, hx, hs, _⟩ := h.at_event
  have horderly := hx.orderly
  have hended := horderly.ended (horderly.marked hmem)
  cases hs
  cases hended

/-- The first visit that ends after a mark was put ends with it, when all keys have been taken. -/
theorem Run.first_answer {between : List Event} {answer : Bool}
    (h : Run (start keymap) (before ++ .marked :: (between ++ [.returned answer])) s)
    (hfirst : between.filterMap Event.answer? = []) :
    answer = true ∧ taken (before ++ .marked :: (between ++ [.returned answer])) =
      accepted (before ++ .marked :: (between ++ [.returned answer])) := by
  have hbefore := h.no_answer_before_mark
  rw [← List.cons_append, ← List.append_assoc] at h ⊢
  obtain ⟨x, hx, hs⟩ := h.last
  obtain ⟨keys, hqueue, htaken⟩ := hx.orderly.queued
  have hbetween : .returned true ∉ between := by
    intro hmem
    have := List.filterMap_eq_nil_iff.mp hfirst _ hmem
    cases this
  -- No visit has taken the mark yet, so it is still the last entry.
  have hone : queuedMark (before ++ .marked :: between) = [none] :=
    if_pos ⟨by simp, by simp [hbefore, hbetween]⟩
  cases hs with
  | quit k r d rest head =>
    rcases queue_head (head ▸ hqueue) with ⟨_, _, he, _⟩ | ⟨_, hk, _⟩
    · cases he
    · refine ⟨rfl, ?_⟩
      rw [hk, List.append_nil] at htaken
      rw [taken_concat, accepted_concat, htaken]
      rfl
  | leave k r d nothing =>
    rw [hone] at hqueue
    simp [nothing] at hqueue

/-- However the two parties take turns, the loop takes the keys that were typed in their order, and
it misses none but those that found sixteen entries in the queue, which never has more. It is told
to quit only if ESC or CTRL+C was read. Then the quit mark waits for room and stays in the queue,
with nothing behind it, until the visit that comes to it: this one ends with it, and every key
before it has got its deadline. Once the end was asked for, the reader reads at most one character
and offers at most one key. -/
theorem Run.faithful (h : Run (start keymap) events s) :
    (taken events).Sublist (typed keymap events) ∧
    (offers events).map Prod.fst ++ s.reader.inHand = typed keymap events ∧
    taken events ++ s.keyboard.queue.reduceOption = accepted events ∧
    s.keyboard.queue.length ≤ 16 ∧
    (.returned true ∈ events → .read 27 ∈ events ∨ .read 3 ∈ events) ∧
    (.read 27 ∈ events ∨ .read 3 ∈ events → s.reader = .marking ∨ .marked ∈ events) ∧
    (.marked ∈ events → .returned true ∈ events ∨ s.keyboard.queue.getLast? = some none) ∧
    (∀ before after, events = before ++ .marked :: after → offers after = [] ∧
      ∀ between answer, after = between ++ [.returned answer] →
        between.filterMap Event.answer? = [] → answer = true ∧ taken events = accepted events) ∧
    (∀ key, s.keyboard.deadlines.get key = lastDeadline events key) ∧
    (∀ before after, events = before ++ .closed :: after →
      (after.filterMap Event.char?).length ≤ 1 ∧ (offers after).length ≤ 1) := by
  have horderly := h.orderly
  obtain ⟨keys, hqueue, htaken⟩ := horderly.queued
  have hkeys : s.keyboard.queue.reduceOption = keys := hqueue ▸ keys_of_queue
  refine ⟨?_, horderly.offered, hkeys ▸ htaken, horderly.room, ?_, horderly.quit.mp, ?_, ?_,
    horderly.deadline, ?_⟩
  · have haccepted : (taken events).Sublist (accepted events) :=
      htaken ▸ List.sublist_append_left _ _
    have htyped : ((offers events).map Prod.fst).Sublist (typed keymap events) :=
      horderly.offered ▸ List.sublist_append_left _ _
    exact (haccepted.trans (accepted_sublist events)).trans htyped
  · intro hquit
    exact horderly.quit.mpr (.inr (horderly.marked hquit))
  · intro hmark
    by_cases hquit : .returned true ∈ events
    · exact .inl hquit
    · have hone : queuedMark events = [none] := if_pos ⟨hmark, hquit⟩
      right
      rw [hqueue, hone, List.getLast?_concat]
  · rintro before after rfl
    refine ⟨h.after_mark, ?_⟩
    rintro between answer rfl hfirst
    exact h.first_answer hfirst
  · rintro before after rfl
    exact h.after_close

/-- The sixteen letters from a on. -/
def letters : Keymap := ⟨Vector.ofFn fun k => 97 + k.val, by decide⟩

/-- The key of the letter a. -/
def firstKey : Fin 16 := ⟨0, by decide⟩

/-- The letter a and ESC are typed, and then the loop looks. -/
def letterThenEscape : List Event :=
  [.looked, .read 97, .offered firstKey 0, .looked, .read 27, .marked, .called,
    .took firstKey (Binary64.add 0 Keyboard.holdTime), .returned true]

theorem faithful_letterThenEscape : ∃ s, Run (start letters) letterThenEscape s ∧
    (taken letterThenEscape).Sublist (typed letters letterThenEscape) ∧
      (.read 27 ∈ letterThenEscape ∨ .read 3 ∈ letterThenEscape) := by
  have hletter : heard letters 97 = .offering firstKey := by decide +kernel
  have hescape : heard letters 27 = .marking := (heard_eq_marking_iff letters 27).mpr (.inl rfl)
  let k : Keyboard := .ofKeymap letters
  let one : Keyboard := { k with queue := [some firstKey] }
  let two : Keyboard := { k with queue := [some firstKey, none] }
  have hread : Step ⟨k, .listening, .away⟩ (.read 97) ⟨k, .offering firstKey, .away⟩ := by
    have hheard : heard k.keymap 97 = .offering firstKey := hletter
    have hs := Step.read k .away 97
    rwa [hheard] at hs
  have hquit : Step ⟨one, .listening, .away⟩ (.read 27)
      ⟨{ one with waiting := true }, .marking, .away⟩ := by
    have hheard : heard one.keymap 27 = .marking := hescape
    have hs := Step.read one .away 27
    rwa [hheard] at hs
  have hletter : Run (start letters) [.looked, .read 97, .offered firstKey 0]
      ⟨one, .looking, .away⟩ :=
    .cons (.look k .away) <| .cons hread <| .cons (.offer k .away firstKey) .nil
  have hescape := Run.cons (.look one .away) <| .cons hquit <| .cons (.mark _ .away rfl) .nil
  have htaken := Run.cons (.call two .ended) <|
    .cons (.take two .ended none 0 firstKey [none] rfl) <| .cons (.quit _ .ended _ [] rfl) .nil
  have hrun := hletter.append (hescape.append htaken)
  have hall := hrun.faithful
  exact ⟨_, hrun, hall.1, hall.2.2.2.2.1 (by simp)⟩

end Exchange

end Chip8.Terminal
