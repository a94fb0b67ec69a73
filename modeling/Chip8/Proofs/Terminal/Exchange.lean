import Chip8.Terminal.Keyboard
import Mathlib.Data.List.Induction
import Mathlib.Data.List.ReduceOption

/-! # The reader and the loop at one queue

The reader of a keyboard and the loop that takes its keys are two parties. Between any two actions
of the one the other may do any number of its own: `Step`, with an event for each action, and `Run`.
What `process` does at once is one of the ways of a visit of the loop. -/

namespace Chip8.Terminal

/-- What the reader does next. -/
inductive Phase
  /-- It looks whether it has been asked to end. -/
  | looking
  /-- It waits for a character. -/
  | listening
  | offering (key : Fin 16)
  /-- It waits with a quit mark until the queue has room. -/
  | marking
  | ended
  | failed (fault : Keymap.Fault)
deriving DecidableEq

/-- Where the loop is. While it takes keys it has a deadline for them once it took the first. -/
inductive Visit
  | away
  | taking (deadline : Option Binary64)

structure Exchange where
  keyboard : Keyboard
  reader : Phase
  loop : Visit

/-- An action of one of the parties. -/
inductive Event
  | looked
  | read (char : Int)
  /-- A key was offered to the queue, which had so many entries. -/
  | offered (key : Fin 16) (queued : Nat)
  | marked
  | called
  | took (key : Fin 16) (deadline : Binary64)
  /-- The last look of a visit at the queue, which finds the quit mark or nothing. -/
  | returned (quit : Bool)
  | closed
deriving DecidableEq

def Event.char? : Event → Option Int
  | .read char => some char
  | _ => none

def Event.answer? : Event → Option Bool
  | .returned quit => some quit
  | _ => none

/-- What the reader does about a character. -/
def heard (keymap : Keymap) (char : Int) : Phase :=
  if char < 0 then .looking
  else match Keymap.fold char with
    | .error f => .failed f
    | .ok code =>
      if code ∈ Keyboard.quitCharacters then .marking
      else match keymap.key? code with
        | some key => .offering key
        | none => .looking

namespace Exchange

/-- Nothing was typed yet and the reader begins. -/
def start (keymap : Keymap) : Exchange := ⟨.ofKeymap keymap, .looking, .away⟩

inductive Step : Exchange → Event → Exchange → Prop
  | look (k : Keyboard) (l : Visit) :
    Step ⟨k, .looking, l⟩ .looked ⟨k, if k.stopping then .ended else .listening, l⟩
  | read (k : Keyboard) (l : Visit) (char : Int) :
    Step ⟨k, .listening, l⟩ (.read char)
      ⟨{ k with waiting := heard k.keymap char = .marking }, heard k.keymap char, l⟩
  | offer (k : Keyboard) (l : Visit) (key : Fin 16) :
    Step ⟨k, .offering key, l⟩ (.offered key k.queue.length) ⟨k.offer key, .looking, l⟩
  | mark (k : Keyboard) (l : Visit) (room : k.hasRoom) :
    Step ⟨k, .marking, l⟩ .marked
      ⟨{ k with queue := k.queue ++ [none], waiting := false }, .ended, l⟩
  | call (k : Keyboard) (r : Phase) : Step ⟨k, r, .away⟩ .called ⟨k, r, .taking none⟩
  -- The time is read for the first key only.
  | take (k : Keyboard) (r : Phase) (d : Option Binary64) (time : Binary64) (key : Fin 16)
      (rest : List (Option (Fin 16))) (head : k.queue = some key :: rest) :
    Step ⟨k, r, .taking d⟩ (.took key (d.getD (time.add Keyboard.holdTime)))
      ⟨{ k with
          queue := rest
          deadlines := k.deadlines.setIfInBounds key (d.getD (time.add Keyboard.holdTime)) },
        r, .taking (some (d.getD (time.add Keyboard.holdTime)))⟩
  | quit (k : Keyboard) (r : Phase) (d : Option Binary64) (rest : List (Option (Fin 16)))
      (head : k.queue = none :: rest) :
    Step ⟨k, r, .taking d⟩ (.returned true) ⟨{ k with queue := rest }, r, .away⟩
  | leave (k : Keyboard) (r : Phase) (d : Option Binary64) (nothing : k.queue = []) :
    Step ⟨k, r, .taking d⟩ (.returned false) ⟨k, r, .away⟩
  | close (k : Keyboard) (r : Phase) : Step ⟨k, r, .away⟩ .closed ⟨k.close, r, .away⟩

inductive Run (x : Exchange) : List Event → Exchange → Prop
  | nil : Run x [] x
  | snoc {events : List Event} {y z : Exchange} {e : Event} :
    Run x events y → Step y e z → Run x (events ++ [e]) z

variable {x y z : Exchange} {e : Event} {events before after : List Event}

theorem Run.append (h : Run x before y) (h' : Run y after z) : Run x (before ++ after) z := by
  induction h' with
  | nil => rwa [List.append_nil]
  | snoc _ hs ih =>
    rw [← List.append_assoc]
    exact ih.snoc hs

theorem Run.cons (hs : Step x e y) (h : Run y events z) : Run x (e :: events) z :=
  (Run.nil.snoc hs).append h

theorem Run.last (h : Run x (events ++ [e]) z) : ∃ y, Run x events y ∧ Step y e z := by
  generalize hall : events ++ [e] = all at h
  cases h with
  | nil => exact absurd hall (by simp)
  | snoc h hs =>
    obtain ⟨rfl, he⟩ := List.append_inj' hall rfl
    cases he
    exact ⟨_, h, hs⟩

theorem Run.split (h : Run x (before ++ after) z) : ∃ y, Run x before y ∧ Run y after z := by
  induction after using List.reverseRecOn generalizing z with
  | nil =>
    rw [List.append_nil] at h
    exact ⟨z, h, .nil⟩
  | append_singleton after e ih =>
    rw [← List.append_assoc] at h
    obtain ⟨w, hw, hs⟩ := h.last
    obtain ⟨y, hy, hrest⟩ := ih hw
    exact ⟨y, hy, hrest.snoc hs⟩

/-- Where an action stands in a run. -/
theorem Run.at_event (h : Run x (before ++ e :: after) z) :
    ∃ y y', Run x before y ∧ Step y e y' ∧ Run y' after z := by
  rw [List.append_cons] at h
  obtain ⟨y', hy', hafter⟩ := h.split
  obtain ⟨y, hy, hs⟩ := hy'.last
  exact ⟨y, y', hy, hs, hafter⟩

/-! ## Offers -/

variable {k : Keyboard} {l : Visit} {r : Phase}

theorem hasRoom_iff (k : Keyboard) : k.hasRoom = true ↔ k.queue.length < 16 :=
  decide_eq_true_iff

/-- The two ways of an offer. -/
theorem offer_cases (k : Keyboard) (key : Fin 16) :
    (k.queue.length < 16 ∧ k.offer key = { k with queue := k.queue ++ [some key] }) ∨
    (16 ≤ k.queue.length ∧ k.offer key = k) := by
  unfold Keyboard.offer
  by_cases hroom : k.hasRoom
  · exact .inl ⟨(hasRoom_iff k).mp hroom, if_pos hroom⟩
  · exact .inr ⟨Nat.le_of_not_lt (mt (hasRoom_iff k).mpr hroom), if_neg hroom⟩

/-! ## A visit of the loop without interruption -/

/-- A quit mark waits if and only if the reader stands there with it. -/
def Coupled (k : Keyboard) (r : Phase) : Prop := k.waiting = true ↔ r = .marking

/-- A look at the end does not make the reader wait with a mark. -/
theorem looked_ne_marking (k : Keyboard) :
    (if k.stopping then Phase.ended else .listening) ≠ .marking := by
  split <;> nofun

/-- A mark that finds room goes to the queue. -/
theorem run_settle (hr : Coupled k r) (l : Visit) :
    ∃ events r', Run ⟨k, r, l⟩ events ⟨k.settle, r', l⟩ ∧ Coupled k.settle r' ∧
      ∀ e ∈ events, e = .marked := by
  unfold Keyboard.settle
  by_cases hmark : (k.waiting && k.hasRoom) = true
  · rw [if_pos hmark]
    rw [Bool.and_eq_true] at hmark
    obtain rfl := hr.mp hmark.1
    exact ⟨[_], .ended, .cons (.mark k l hmark.2) .nil, by simp [Coupled], by simp⟩
  · rw [if_neg hmark]
    exact ⟨[], r, .nil, hr, nofun⟩

theorem answers_of_marked (h : ∀ e ∈ events, e = .marked) :
    events.filterMap Event.answer? = [] := by
  refine List.filterMap_eq_nil_iff.mpr fun e he => ?_
  rw [h e he]
  rfl

theorem keys_settle (k : Keyboard) : k.settle.queue.reduceOption = k.queue.reduceOption := by
  unfold Keyboard.settle
  split
  · simp [List.reduceOption_append, List.reduceOption_singleton]
  · rfl

theorem run_drain {deadline time : Binary64} {d : Option Binary64} {n : Nat} (hr : Coupled k r)
    (hd : d.getD (time.add Keyboard.holdTime) = deadline)
    (hn : k.queue.reduceOption.length < n) :
    ∃ events r', Run ⟨k, r, .taking d⟩ events ⟨(k.drain deadline n).2, r', .away⟩ ∧
      events.filterMap Event.answer? = [(k.drain deadline n).1] ∧
      ∀ key d', .took key d' ∈ events → d' = deadline := by
  induction n generalizing k r d with
  | zero => omega
  | succ n ih =>
    unfold Keyboard.drain Keyboard.take?
    rcases hq : k.queue with _ | ⟨_ | key, rest⟩
    · exact ⟨[_], r, .cons (.leave k r d hq) .nil, rfl, by simp⟩
    · have hr' : Coupled { k with queue := rest } r := hr
      obtain ⟨events, r', hrun, -, hmarks⟩ := run_settle hr' .away
      refine ⟨_, r', .cons (.quit k r d rest hq) hrun, ?_, fun key d' htook => ?_⟩
      · exact congrArg (true :: ·) (answers_of_marked hmarks)
      · cases hmarks _ ((List.mem_cons.mp htook).resolve_left nofun)
    · have htake := Step.take k r d time key rest hq
      rw [hd] at htake
      -- The mark goes to the queue before the deadline is set or after it, which is the same.
      let settled := Keyboard.settle { k with queue := rest }
      let held := { settled with deadlines := settled.deadlines.setIfInBounds key deadline }
      have hheld : Keyboard.settle
          { k with queue := rest, deadlines := k.deadlines.setIfInBounds key deadline } = held := by
        unfold held settled Keyboard.settle Keyboard.hasRoom
        split <;> rfl
      obtain ⟨events, r', hrun, hr', hmarks⟩ := run_settle
        (k := { k with queue := rest, deadlines := k.deadlines.setIfInBounds key deadline })
        hr (.taking (some deadline))
      rw [hheld] at hrun hr'
      have hfewer : held.queue.reduceOption.length < n := by
        have hkeys : held.queue.reduceOption = rest.reduceOption := keys_settle _
        rw [hkeys]
        rw [hq, List.reduceOption_cons_of_some, List.length_cons] at hn
        omega
      obtain ⟨later, r'', hlater, hanswer, hsame⟩ := ih hr' (d := some deadline) rfl hfewer
      refine ⟨_, r'', .cons htake (hrun.append hlater), ?_, fun key' d' htook => ?_⟩
      · rw [← List.cons_append, List.filterMap_append, hanswer]
        exact congrArg (· ++ _) (answers_of_marked hmarks)
      · rcases List.mem_cons.mp htook with hfirst | hrest
        · cases hfirst
          rfl
        · rcases List.mem_append.mp hrest with hbetween | hlast
          · cases hmarks _ hbetween
          · exact hsame key' d' hlast

/-- A visit without interruption is one way of the exchange to go on. It gives its answer, and one
deadline to all keys that it takes. -/
theorem run_process (hr : Coupled k r) (time : Binary64) :
    ∃ events r', Run ⟨k, r, .away⟩ events ⟨(k.process time).2, r', .away⟩ ∧
      events.filterMap Event.answer? = [(k.process time).1] ∧
      ∀ key d, .took key d ∈ events → d = time.add Keyboard.holdTime := by
  have hkeys : k.queue.reduceOption.length < k.queue.length + 1 :=
    Nat.lt_succ_of_le (List.reduceOption_length_le _)
  obtain ⟨events, r', hrun, hanswer, hsame⟩ := run_drain hr (d := none) rfl hkeys
  exact ⟨_, r', .cons (.call k r) hrun, hanswer,
    fun key d htook => hsame key d ((List.mem_cons.mp htook).resolve_left nofun)⟩

end Exchange

end Chip8.Terminal
