import Mathlib.Data.List.Induction
import Chip8.Proofs.Terminal.Pad

/-! # What the terminal shows

A display notes that something was written, and the next refresh pushes the pad. The note is taken
down by a push and put up by a change of the terminal's size, which clears the screen. So between
two refreshes of one size, with the note down and all pixels told of, the terminal shows the pad. -/

namespace Chip8.Terminal

/-- What is asked of a display. -/
inductive Use
  | pixel (w : Screen.PixelWrite)
  | title (text : String)
  /-- The terminal has this height and width when it is asked for them. -/
  | refresh (changed : Bool) (size : Int × Int)

/-- The size that a refresh sees. -/
def Use.size? : Use → Option (Int × Int)
  | .refresh _ size => some size
  | _ => none

def Display.use (d : Display) : Use → Display × List Call
  | .pixel w => (d, d.setPixel w.x w.y w.lit)
  | .title text => d.setTitle text
  | .refresh changed size => d.refresh changed size

def Transcript.useAll (h : Transcript) (uses : List Use) : Transcript :=
  uses.foldl (fun h u => h.add (h.display.use u)) h

theorem Transcript.useAll_append (h : Transcript) (earlier later : List Use) :
    h.useAll (earlier ++ later) = (h.useAll earlier).useAll later := List.foldl_append

/-- The size that the last refresh saw. -/
def lastSeen (uses : List Use) : Option (Int × Int) := (uses.filterMap Use.size?).getLast?

/-- A pixel was written, and there was no refresh since. -/
def PixelsWait (uses : List Use) : Prop :=
  ∃ earlier w later, uses = earlier ++ .pixel w :: later ∧ ∀ u ∈ later, u.size? = none

/-- The first refresh after a pixel is told of a change. -/
def PixelsTold (uses : List Use) : Prop :=
  ∀ before changed size after, uses = before ++ .refresh changed size :: after →
    PixelsWait before → changed = true

/-- After the call the screen may differ from the pad. -/
def Call.spoils : Call → Bool
  | .newPad _ _ | .writePad _ _ _ _ | .clearScreen => true
  | _ => false

/-- The pad was pushed to a screen of this size, and nothing was written or cleared since. -/
def ShowsPad (calls : List Call) (size : Int × Int) : Prop :=
  ∃ earlier later, calls = earlier ++ .pushPad (size.1 - 1) (size.2 - 1) :: later ∧
    ∀ call ∈ later, call.spoils = false

variable {d : Display} {h : Transcript} {uses : List Use} {changed : Bool} {size : Int × Int}

theorem lastSeen_concat (uses : List Use) (u : Use) :
    lastSeen (uses ++ [u]) = u.size?.or (lastSeen uses) := by
  unfold lastSeen
  rw [List.filterMap_append, List.getLast?_append]
  cases u <;> rfl

theorem PixelsTold.of_append {later : List Use} (h : PixelsTold (uses ++ later)) :
    PixelsTold uses := by
  intro before changed size after huses
  refine h before changed size (after ++ later) ?_
  rw [huses, List.append_assoc, List.cons_append]

/-! ## One refresh -/

/-- What holds after these uses: unless there is a reason to push the pad, it is shown. -/
structure Kept (uses : List Use) (h : Transcript) : Prop where
  lastSize : h.display.lastSize = (lastSeen uses).getD (-1, -1)
  shown : h.display.pending = true ∨ PixelsWait uses ∨ lastSeen uses = none ∨
    ShowsPad h.calls h.display.lastSize

/-- No terminal has the size that stands for none. -/
theorem Kept.same_iff (hh : Kept uses h) (hsize : 0 ≤ size.1 ∧ 0 ≤ size.2) :
    size = h.display.lastSize ↔ lastSeen uses = some size := by
  rw [hh.lastSize]
  cases lastSeen uses with
  | none =>
    refine ⟨?_, fun h => nomatch h⟩
    rintro rfl
    exact absurd hsize (by decide)
  | some seen => exact ⟨fun h => congrArg some h.symm, fun h => (Option.some.inj h).symm⟩

theorem Kept.showsPad (hh : Kept uses h) (hsize : 0 ≤ size.1 ∧ 0 ≤ size.2)
    (htold : PixelsWait uses → changed = true) (hseen : lastSeen uses = some size) :
    ShowsPad (h.add (h.display.refresh changed size)).calls size := by
  have hsame := (hh.same_iff hsize).mpr hseen
  rcases h.display.refresh_cases changed size with ⟨_, _, hpush⟩ |
    ⟨_, hpending, hchanged, hnothing⟩ | ⟨hother, _⟩
  · rw [hpush]
    exact ⟨h.calls, [], rfl, fun _ h => nomatch h⟩
  · -- There was no reason to push, so the pad is shown already.
    rw [hnothing, Transcript.add, List.append_nil]
    rcases hh.shown with hup | hwait | hnone | hshown
    · rw [hpending] at hup
      cases hup
    · rw [hchanged] at htold
      cases htold hwait
    · rw [hnone] at hseen
      cases hseen
    · rwa [hsame]
  · exact absurd hsame hother

theorem pending_refresh (hother : size ≠ d.lastSize) (changed : Bool) :
    (d.refresh changed size).1.pending = true ∧ (d.refresh changed size).1.lastSize = size := by
  rcases d.refresh_cases changed size with ⟨hsame, _⟩ | ⟨hsame, _⟩ | ⟨_, h⟩
  · exact absurd hsame hother
  · exact absurd hsame hother
  · rw [h]
    exact ⟨rfl, rfl⟩

/-- With the note up, the next refresh of the same size pushes the pad. -/
theorem refresh_of_pending (hpending : d.pending = true) (changed : Bool) :
    (d.refresh changed d.lastSize).2 = [.pushPad (d.lastSize.1 - 1) (d.lastSize.2 - 1)] := by
  rcases d.refresh_cases changed d.lastSize with ⟨_, _, h⟩ | ⟨_, hdown, _⟩ | ⟨hother, _⟩
  · rw [h]
  · rw [hpending] at hdown
    cases hdown
  · exact absurd rfl hother

/-! ## Runs -/

theorem kept_opened (hd : d.lastSize = (-1, -1)) (width height : Int) :
    Kept [] (.opened d width height) := ⟨hd, Or.inr (Or.inr (Or.inl rfl))⟩

theorem Kept.pixel (hh : Kept uses h) (w : Screen.PixelWrite) :
    Kept (uses ++ [.pixel w]) (h.add (h.display.use (.pixel w))) where
  lastSize := by
    rw [lastSeen_concat]
    exact hh.lastSize
  shown := Or.inr (Or.inl ⟨uses, w, [], rfl, fun _ h => nomatch h⟩)

theorem Kept.title (hh : Kept uses h) (text : String) :
    Kept (uses ++ [.title text]) (h.add (h.display.use (.title text))) where
  lastSize := by
    rw [lastSeen_concat]
    exact hh.lastSize
  shown := Or.inl rfl

theorem Kept.refresh (hh : Kept uses h) (hsize : 0 ≤ size.1 ∧ 0 ≤ size.2)
    (htold : PixelsWait uses → changed = true) :
    Kept (uses ++ [.refresh changed size]) (h.add (h.display.use (.refresh changed size))) where
  lastSize := by
    rw [lastSeen_concat]
    exact h.display.lastSize_refresh changed size
  shown := by
    by_cases hsame : size = h.display.lastSize
    · refine Or.inr (Or.inr (Or.inr ?_))
      change ShowsPad _ (h.display.refresh changed size).1.lastSize
      rw [Display.lastSize_refresh]
      exact hh.showsPad hsize htold ((hh.same_iff hsize).mp hsame)
    · exact Or.inl (pending_refresh hsame changed).1

theorem kept_useAll (hh : Kept [] h)
    (hsizes : ∀ changed size, .refresh changed size ∈ uses → 0 ≤ size.1 ∧ 0 ≤ size.2)
    (htold : PixelsTold uses) : Kept uses (h.useAll uses) := by
  induction uses using List.reverseRecOn with
  | nil => exact hh
  | append_singleton earlier u ih =>
    have hearlier := ih (fun changed size hmem => hsizes changed size (List.mem_append_left _ hmem))
      htold.of_append
    rw [Transcript.useAll_append]
    cases u with
    | pixel w => exact hearlier.pixel w
    | title text => exact hearlier.title text
    | refresh changed size =>
      exact hearlier.refresh (hsizes changed size (by simp)) (htold earlier changed size [] rfl)

/-- Without a refresh the note stays up. -/
theorem pending_useAll (hpending : h.display.pending = true) {between : List Use}
    (hbetween : ∀ u ∈ between, u.size? = none) :
    (h.useAll between).display.pending = true ∧
      (h.useAll between).display.lastSize = h.display.lastSize := by
  induction between generalizing h with
  | nil => exact ⟨hpending, rfl⟩
  | cons u rest ih =>
    have hrest := fun u' (hu' : u' ∈ rest) => hbetween u' (List.mem_cons_of_mem u hu')
    cases u with
    | pixel w => exact ih (h := h.add (h.display.use (.pixel w))) hpending hrest
    | title text => exact ih (h := h.add (h.display.use (.title text))) rfl hrest
    | refresh changed size => cases hbetween _ List.mem_cons_self

/-- However a display is used, if only the first refresh after a pixel is told of a change: a
refresh that sees the size of the one before it leaves the pad on the screen, pushed whole and
unchanged since. A refresh that sees another size, or is the first, leaves the note up, and the next
one of that size pushes the pad whatever happened in between. -/
theorem repaint_kept {room : Nat} {wanted : Setting Extent} {mode : CursorMode}
    {resizable : Bool} (hopen : (Display.open? room wanted mode resizable).1 = .ok d)
    (width height : Int)
    (hsizes : ∀ changed size, .refresh changed size ∈ uses → 0 ≤ size.1 ∧ 0 ≤ size.2)
    (htold : PixelsTold uses) (before after : List Use) (changed : Bool) (size : Int × Int)
    (huses : uses = before ++ .refresh changed size :: after) :
    let h := (Transcript.opened d width height).useAll (before ++ [.refresh changed size])
    (lastSeen before = some size → ShowsPad h.calls size) ∧
    (lastSeen before ≠ some size → h.display.pending = true ∧
      ∀ between, (∀ u ∈ between, u.size? = none) → ∀ changed',
        ((h.useAll between).display.refresh changed' size).2 =
          [.pushPad (size.1 - 1) (size.2 - 1)]) := by
  have hsize := hsizes changed size (huses ▸ List.mem_append_right _ List.mem_cons_self)
  have hkept : Kept before ((Transcript.opened d width height).useAll before) := by
    refine kept_useAll (kept_opened (Display.lastSize_open hopen) width height) ?_
      (huses ▸ htold).of_append
    intro changed size hmem
    exact hsizes changed size (huses ▸ List.mem_append_left _ hmem)
  intro h
  have hh : h = _ := Transcript.useAll_append _ before _
  rw [hh]
  constructor
  · exact hkept.showsPad hsize (htold before changed size after huses)
  · intro hseen
    have hother := fun hsame => hseen ((hkept.same_iff hsize).mp hsame)
    obtain ⟨hpending, hlast⟩ := pending_refresh hother changed
    refine ⟨hpending, fun between hbetween changed' => ?_⟩
    obtain ⟨hup, hsame⟩ := pending_useAll
      (h := ((Transcript.opened d width height).useAll before).add (_, _)) hpending hbetween
    have hnext := refresh_of_pending hup changed'
    rw [hsame.trans hlast] at hnext
    exact hnext

/-- A pixel and a title are shown in turn, and then the terminal is resized. -/
def resizedUses : List Use :=
  [.refresh false (40, 200), .pixel ⟨0, 0, true⟩, .refresh true (40, 200), .title "Chip-8",
    .refresh false (40, 200), .refresh false (50, 132)]

theorem pixelsTold_resized : PixelsTold resizedUses := by
  rintro before changed size after huses ⟨earlier, w, later, rfl, hlater⟩
  have hrest : later ++ .refresh changed size :: after = resizedUses.drop 2 := by
    simp [resizedUses, List.cons_eq_append_iff] at huses
    exact huses.2.2
  cases later with
  | nil =>
    obtain ⟨hfirst, _⟩ := List.cons.inj hrest
    exact (Use.refresh.inj hfirst).1
  | cons u rest =>
    -- The use right after the pixel is a refresh already.
    obtain ⟨rfl, _⟩ := List.cons.inj hrest
    cases hlater _ List.mem_cons_self

theorem repaint_kept_resized :
    let opened := Transcript.opened .untouched 64 32
    ((Display.open? 0x1000 .unset .hidden true).1 = .ok .untouched ∧
      (∀ changed size, .refresh changed size ∈ resizedUses → 0 ≤ size.1 ∧ 0 ≤ size.2) ∧
      PixelsTold resizedUses) ∧
      ShowsPad (opened.useAll (resizedUses.take 5)).calls (40, 200) ∧
      (opened.useAll resizedUses).display.pending = true ∧
      ((opened.useAll resizedUses).display.refresh false (50, 132)).2 = [.pushPad 49 131] := by
  intro opened
  have hopen : (Display.open? 0x1000 .unset .hidden true).1 = .ok .untouched :=
    Display.open_untouched (by decide)
  have hsizes : ∀ changed size, .refresh changed size ∈ resizedUses →
      0 ≤ size.1 ∧ 0 ≤ size.2 := by
    intro changed size hmem
    simp only [resizedUses, List.mem_cons, reduceCtorEq, Use.refresh.injEq, List.not_mem_nil,
      false_or, or_false] at hmem
    rcases hmem with ⟨_, rfl⟩ | ⟨_, rfl⟩ | ⟨_, rfl⟩ | ⟨_, rfl⟩ <;> decide
  have hfifth := repaint_kept hopen 64 32 hsizes pixelsTold_resized (resizedUses.take 4)
    [.refresh false (50, 132)] false (40, 200) rfl
  have hsixth := repaint_kept hopen 64 32 hsizes pixelsTold_resized (resizedUses.take 5) []
    false (50, 132) rfl
  obtain ⟨hpending, hnext⟩ := hsixth.2 (by decide)
  exact ⟨⟨hopen, hsizes, pixelsTold_resized⟩, hfifth.1 rfl, hpending,
    hnext [] (fun _ h => nomatch h) false⟩

end Chip8.Terminal
