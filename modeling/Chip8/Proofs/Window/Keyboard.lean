import Mathlib.Data.List.Induction
import Chip8.Proofs.Keymap
import Chip8.Window.Keyboard

/-! # What the keys of a window remember

An event says at most something about the one key that its code stands for, and then decides alone
whether that key is held. So a key is held exactly if the last thing said about it was that it is
pressed, however the events were divided into batches. -/

namespace Chip8.Window

/-- The code of the key that is pressed or released. -/
def Event.code? : Event → Option Int
  | .keyDown code | .keyUp code => some code
  | .quit | .other => none

/-- Whether an event ends the program. -/
def Event.ends (e : Event) : Bool := e = .quit ∨ e = .keyUp Keyboard.escape

/-- What was said about the key of this code. -/
def said (events : List Event) (code : Int) : List Event :=
  events.filter fun e => e.code? = some code

theorem said_concat (events : List Event) (e : Event) (code : Int) :
    said (events ++ [e]) code =
      if e.code? = some code then said events code ++ [e] else said events code := by
  unfold said
  rw [List.filter_append, List.filter_singleton]
  by_cases hcode : e.code? = some code <;> simp [hcode]

namespace Keyboard

variable {k : Keyboard} {key : Fin 16} {e : Event} {code : Int}

/-! ## One event -/

theorem get_setHeld (k : Keyboard) (code : Int) (down : Bool) (key : Fin 16) :
    (k.setHeld code down).held.get key =
      if k.keymap.codes.get key = code then down else k.held.get key := by
  unfold setHeld
  split
  · rename_i key' hkey
    have hset : (k.held.setIfInBounds key' down).get key =
        if key'.val = key.val then down else k.held.get key :=
      Vector.getElem_setIfInBounds key.isLt
    have hsame : key'.val = key.val ↔ k.keymap.codes.get key = code := by
      rw [← Keymap.key?_eq_some_iff, hkey, Option.some_inj, Fin.ext_iff]
    rw [hset]
    simp only [hsame]
  · rename_i hnone
    rw [if_neg]
    intro hcode
    rw [Keymap.key?_eq_some_iff.mpr hcode] at hnone
    cases hnone

theorem setHeld_of_unmapped (hcode : ∀ key, k.keymap.codes.get key ≠ code) (down : Bool) :
    k.setHeld code down = k := by
  unfold setHeld
  split
  · rename_i key hkey
    exact absurd (Keymap.key?_eq_some_iff.mp hkey) (hcode key)
  · rfl

theorem keymap_setHeld (k : Keyboard) (code : Int) (down : Bool) :
    (k.setHeld code down).keymap = k.keymap := by
  unfold setHeld
  split <;> rfl

theorem handle_fst (k : Keyboard) (e : Event) : (k.handle e).1 = e.ends := by
  unfold Event.ends
  cases e with
  | keyUp code =>
    rw [handle]
    by_cases hescape : code = escape <;> simp [hescape]
  | _ => simp [handle]

theorem keymap_handle (k : Keyboard) (e : Event) : (k.handle e).2.keymap = k.keymap := by
  cases e with
  | keyDown code => exact keymap_setHeld k code true
  | keyUp code =>
    rw [handle]
    split
    · rfl
    · exact keymap_setHeld k code false
  | _ => rfl

/-- The escape key apart, an event with the code of a key decides whether the key is held. -/
theorem held_handle (k : Keyboard) (e : Event) (hescape : k.keymap.codes.get key ≠ escape) :
    (k.handle e).2.held.get key =
      if e.code? = some (k.keymap.codes.get key) then
        decide (e = .keyDown (k.keymap.codes.get key))
      else k.held.get key := by
  have hsome (c : Int) : some c = some (k.keymap.codes.get key) ↔ k.keymap.codes.get key = c := by
    rw [Option.some_inj, eq_comm]
  cases e with
  | keyDown c =>
    simp only [handle, get_setHeld, Event.code?, hsome]
    by_cases hc : k.keymap.codes.get key = c
    · rw [if_pos hc, if_pos hc, hc, decide_eq_true rfl]
    · rw [if_neg hc, if_neg hc]
  | keyUp c =>
    simp only [handle, Event.code?, hsome]
    by_cases hc : k.keymap.codes.get key = c
    · rw [if_neg (hc ▸ hescape), if_pos hc, get_setHeld, if_pos hc, decide_eq_false nofun]
    · rw [if_neg hc]
      split
      · rfl
      · rw [get_setHeld, if_neg hc]
  | quit | other => rfl

theorem handle_of_unmapped (he : e.code? = some code)
    (hcode : ∀ key, k.keymap.codes.get key ≠ code) : (k.handle e).2 = k := by
  cases e with
  | keyDown c =>
    cases he
    exact setHeld_of_unmapped hcode true
  | keyUp c =>
    cases he
    rw [handle]
    split
    · rfl
    · exact setHeld_of_unmapped hcode false
  | quit | other => cases he

/-! ## All events so far -/

/-- The keyboard after events, in whatever batches they came. -/
def handleAll (k : Keyboard) (events : List Event) : Keyboard :=
  events.foldl (fun k e => (k.handle e).2) k

/-- The keyboard after batches, each of which was processed as a whole. -/
def processAll (k : Keyboard) (batches : List (List Event)) : Keyboard :=
  batches.foldl (fun k batch => (k.process batch).2) k

theorem handleAll_append (k : Keyboard) (events more : List Event) :
    k.handleAll (events ++ more) = (k.handleAll events).handleAll more := List.foldl_append

/-- No event keeps those behind it in its batch from being handled. -/
theorem process_eq (k : Keyboard) (batch : List Event) :
    k.process batch = (batch.any Event.ends, k.handleAll batch) := by
  induction batch generalizing k with
  | nil => rfl
  | cons e rest ih =>
    rw [List.any_cons, ← handle_fst k e, process]
    simp only [ih]
    rfl

theorem processAll_eq (k : Keyboard) (batches : List (List Event)) :
    k.processAll batches = k.handleAll batches.flatten := by
  induction batches generalizing k with
  | nil => rfl
  | cons batch rest ih =>
    rw [List.flatten_cons, handleAll_append, ← ih, processAll, List.foldl_cons, process_eq]
    rfl

theorem keymap_handleAll (k : Keyboard) (events : List Event) :
    (k.handleAll events).keymap = k.keymap := by
  induction events generalizing k with
  | nil => rfl
  | cons e rest ih => exact (ih _).trans (keymap_handle k e)

theorem held_handleAll (hheld : k.held.get key = false)
    (hescape : k.keymap.codes.get key ≠ escape) (events : List Event) :
    (k.handleAll events).held.get key = true ↔
      (said events (k.keymap.codes.get key)).getLast? =
        some (.keyDown (k.keymap.codes.get key)) := by
  -- The induction goes from the end, since what an event says does not depend on those before it.
  induction events using List.reverseRecOn with
  | nil => simp [handleAll, said, hheld]
  | append_singleton events e ih =>
    have hkeymap := keymap_handleAll k events
    have hlast := held_handle (k.handleAll events) e (hkeymap ▸ hescape)
    rw [hkeymap] at hlast
    have hsnoc : k.handleAll (events ++ [e]) = ((k.handleAll events).handle e).2 :=
      handleAll_append k events [e]
    rw [hsnoc, hlast, said_concat]
    by_cases hcode : e.code? = some (k.keymap.codes.get key)
    · rw [if_pos hcode, if_pos hcode, List.getLast?_concat, Option.some_inj, decide_eq_true_iff]
    · rw [if_neg hcode, if_neg hcode, ih]

theorem handleAll_of_unmapped (he : e.code? = some code)
    (hcode : ∀ key, k.keymap.codes.get key ≠ code) (earlier later : List Event) :
    k.handleAll (earlier ++ e :: later) = k.handleAll (earlier ++ later) := by
  have hkeymap := keymap_handleAll k earlier
  rw [handleAll_append, handleAll_append, handleAll, List.foldl_cons,
    handle_of_unmapped he (hkeymap ▸ hcode)]
  rfl

theorem held_open {text : String} (hopen : open? text = .ok k) : k.held.get key = false := by
  unfold open? at hopen
  cases hparse : Keymap.parse false text with
  | error f =>
    rw [hparse] at hopen
    cases hopen
  | ok m =>
    rw [hparse] at hopen
    cases hopen
    exact Vector.getElem_replicate key.isLt

/-- After whatever batches a key is held exactly if the last event with its code, among those of all
batches, is that it is pressed; the escape key is none of them. A batch ends the program exactly if
the window is closed or the escape key is released in it, at whatever place. An event with the code
of no key can be left out of a batch: that changes neither what is held nor, unless it is the escape
key that is released, whether the batch ends the program. -/
theorem held_iff_last {text : String} (hopen : open? text = .ok k)
    (hescape : ∀ key, k.keymap.codes.get key ≠ escape) (before : List (List Event))
    (batch : List Event) :
    let k₁ := k.processAll before
    (∀ key, (k₁.process batch).2.held.get key = true ↔
      (said (before.flatten ++ batch) (k.keymap.codes.get key)).getLast? =
        some (.keyDown (k.keymap.codes.get key))) ∧
    ((k₁.process batch).1 = true ↔ .quit ∈ batch ∨ .keyUp 27 ∈ batch) ∧
    ∀ earlier e later code, batch = earlier ++ e :: later → e.code? = some code →
      (∀ key, k.keymap.codes.get key ≠ code) →
        (k₁.process (earlier ++ later)).2 = (k₁.process batch).2 ∧
          (e ≠ .keyUp 27 → (k₁.process (earlier ++ later)).1 = (k₁.process batch).1) := by
  intro k₁
  have hk₁ : k₁ = k.handleAll before.flatten := processAll_eq k before
  have hkeymap : k₁.keymap = k.keymap := hk₁ ▸ keymap_handleAll k before.flatten
  refine ⟨?_, ?_, ?_⟩
  · intro key
    rw [process_eq, hk₁, ← handleAll_append]
    exact held_handleAll (held_open hopen) (hescape key) _
  · rw [process_eq, List.any_eq_true]
    simp only [Event.ends, decide_eq_true_iff]
    constructor
    · rintro ⟨_, hmem, rfl | rfl⟩
      · exact Or.inl hmem
      · exact Or.inr hmem
    · rintro (hmem | hmem)
      · exact ⟨_, hmem, Or.inl rfl⟩
      · exact ⟨_, hmem, Or.inr rfl⟩
  · rintro earlier e later code rfl he hcode
    rw [process_eq, process_eq]
    refine ⟨(handleAll_of_unmapped he (hkeymap ▸ hcode) earlier later).symm, fun hother => ?_⟩
    have hends : e.ends = false := by
      cases e with
      | keyDown c => rfl
      | keyUp c => exact decide_eq_false (not_or.mpr ⟨nofun, hother⟩)
      | quit | other => cases he
    simp [hends]

/-- The keymap of the standard keyboard. -/
def standardKeymap : Keymap :=
  ⟨#v[120, 49, 50, 51, 113, 119, 101, 97, 115, 100, 122, 99, 52, 114, 102, 118], by decide⟩

/-- The window is closed before key one is pressed and key zero is released, in the same batch. -/
def closing : List Event := [.quit, .keyDown 999, .keyDown 49, .keyUp 120]

theorem held_iff_last_closing :
    open? Keymap.standard = .ok ⟨standardKeymap, .replicate 16 false⟩ ∧
      (∀ key, standardKeymap.codes.get key ≠ escape) ∧
      let k₁ := (⟨standardKeymap, .replicate 16 false⟩ : Keyboard).processAll [[.keyDown 120]]
      (k₁.process closing).1 = true ∧ (k₁.process closing).2.held.get 0 = false ∧
        (k₁.process closing).2.held.get 1 = true ∧
        k₁.process [.quit, .keyDown 49, .keyUp 120] = k₁.process closing := by
  have hopen : open? Keymap.standard = .ok ⟨standardKeymap, .replicate 16 false⟩ := rfl
  have hescape : ∀ key, standardKeymap.codes.get key ≠ escape := by decide
  obtain ⟨hheld, hends, hunmapped⟩ := held_iff_last hopen hescape [[.keyDown 120]] closing
  obtain ⟨hkeyboard, hquit⟩ :=
    hunmapped [.quit] (.keyDown 999) [.keyDown 49, .keyUp 120] 999 rfl rfl (by decide)
  refine ⟨hopen, hescape, hends.mpr (by decide), ?_, (hheld 1).mpr (by decide),
    Prod.ext (hquit nofun) hkeyboard⟩
  rw [← Bool.not_eq_true, hheld 0]
  decide

end Keyboard

end Chip8.Window
