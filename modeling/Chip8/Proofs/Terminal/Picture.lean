import Mathlib.Data.List.Forall2
import Mathlib.Data.List.Induction
import Chip8.Proofs.Screen.Writes
import Chip8.Proofs.Terminal.Pad

/-! # The picture in the pad

A pixel is a block of cells, as many columns wide as the scale, and the blocks of a row lie side by
side below the title row. So a picture fills its rows of the pad without a gap, every cell shows the
pixel that its column divided by the scale leads to, and pictures and titles keep out of each
other's rows. A character takes one cell. -/

namespace Chip8.Terminal

/-! ## Drawings -/

/-- What is drawn on a display. -/
inductive Drawing
  /-- The terminal has this height and width when the picture is shown. -/
  | picture (s : Screen) (size : Int × Int)
  | title (text : String)

namespace Drawing

/-- A picture has this width and height. -/
def Fits (width height : Int) : Drawing → Prop
  | .picture s _ => s.width = width ∧ s.height = height
  | .title _ => True

def title? : Drawing → Option String
  | .picture _ _ => none
  | .title text => some text

end Drawing

def Display.draw (d : Display) : Drawing → Display × List Call
  | .picture s size => d.render s size
  | .title text => d.setTitle text

def Transcript.drawAll (h : Transcript) (drawings : List Drawing) : Transcript :=
  drawings.foldl (fun h a => h.add (h.display.draw a)) h

theorem Transcript.drawAll_append (h : Transcript) (earlier later : List Drawing) :
    h.drawAll (earlier ++ later) = (h.drawAll earlier).drawAll later := List.foldl_append

/-- The call makes no pad, and if it writes to one, then only to this many rows and columns. -/
def Call.KeepsTo (rows columns : Int) : Call → Prop
  | .newPad _ _ => False
  | .writePad row column text _ =>
    (0 ≤ row ∧ row < rows) ∧ 0 ≤ column ∧ column + text.length ≤ columns
  | _ => True

def Call.writesRow (row : Int) : Call → Bool
  | .writePad r _ _ _ => r = row
  | _ => false

/-- The call writes all columns of the title row: the title as far as it goes, then blanks. -/
def IsTitleRow (columns : Int) (title : String) (call : Call) : Prop :=
  ∃ text : String, call = .writePad 0 0 text true ∧ text.length = columns ∧
    ∀ k : Nat, k < columns → text.toList[k]? = some (title.toList.getD k ' ')

theorem Call.keepsTo_of_spares {call : Call} (h : call.sparesPad = true) (rows columns : Int) :
    call.KeepsTo rows columns ∧ call.writesRow 0 = false := by
  cases call with
  | newPad _ _ | writePad _ _ _ _ => cases h
  | _ => exact ⟨trivial, rfl⟩

variable {d : Display} {p : Pad} {s : Screen} {row column : Int}

/-! ## Pixels -/

theorem ediv_eq_iff {scale : Int} (hscale : 1 ≤ scale) (column x : Int) :
    column / scale = x ↔ x * scale ≤ column ∧ column < x * scale + scale := by
  have hle := Int.le_ediv_iff_mul_le (a := x) (b := column) (c := scale) (by omega)
  have hlt := Int.ediv_lt_iff_lt_mul (a := column) (b := x + 1) (c := scale) (by omega)
  rw [Int.add_mul, Int.one_mul] at hlt
  omega

theorem length_pixelText (hscale : 1 ≤ d.scale) : (d.pixelText.length : Int) = d.scale := by
  rw [Display.pixelText, String.length_ofList, List.length_replicate]
  omega

/-- A pixel is written to its own cells and to no others. -/
theorem isReversed_setPixel (hscale : 1 ≤ d.scale) (hp : Pad.Sorted p.rows) (x y : Int)
    (lit : Bool) :
    ((d.setPixel x y lit).foldl Pad.apply p).isReversed row column =
      if row = y + 1 ∧ column / d.scale = x then lit else p.isReversed row column := by
  have hwritten : (d.setPixel x y lit).foldl Pad.apply p =
    p.write (y + 1) (x * d.scale) d.pixelText.length lit := rfl
  rw [hwritten, Pad.isReversed_write hp, length_pixelText hscale]
  simp only [ediv_eq_iff hscale]

theorem keepsTo_setPixel (hscale : 1 ≤ d.scale) {w : Screen.PixelWrite} (hw : w ∈ s.pixelWrites) :
    ∀ call ∈ d.setPixel w.x w.y w.lit,
      call.KeepsTo (s.height + 1) (s.width * d.scale) ∧ call.writesRow 0 = false := by
  obtain ⟨⟨hx, hx'⟩, ⟨hy, hy'⟩, _⟩ := Screen.mem_pixelWrites.mp hw
  have hleft : 0 ≤ w.x * d.scale := Int.mul_nonneg hx (by omega)
  have hright : (w.x + 1) * d.scale ≤ s.width * d.scale :=
    Int.mul_le_mul_of_nonneg_right hx' (by omega)
  rw [Int.add_mul, Int.one_mul] at hright
  intro call hcall
  obtain rfl := List.mem_singleton.mp hcall
  refine ⟨⟨⟨by omega, by omega⟩, hleft, ?_⟩, decide_eq_false (by omega)⟩
  rw [length_pixelText hscale]
  exact hright

/-! ## Pictures -/

theorem isReversed_render (hscale : 1 ≤ d.scale) (hp : Pad.Sorted p.rows)
    (hrow : 1 ≤ row ∧ row ≤ s.height) (hcolumn : 0 ≤ column ∧ column < s.width * d.scale)
    (size : Int × Int) :
    ((d.render s size).2.foldl Pad.apply p).isReversed row column =
      s.lit (column / d.scale) (row - 1) := by
  have hx : 0 ≤ column / d.scale ∧ column / d.scale < s.width :=
    ⟨Int.ediv_nonneg hcolumn.1 (by omega),
      (Int.ediv_lt_iff_lt_mul (by omega)).mpr hcolumn.2⟩
  have hcalls : (d.render s size).2 =
    (s.pixelWrites.flatMap fun w => d.setPixel w.x w.y w.lit) ++ (d.refresh true size).2 := rfl
  rw [hcalls, List.foldl_append, Pad.foldl_apply_of_spares (d.spares_refresh true size),
    List.foldl_flatMap]
  refine Screen.look_foldl_pixelWrites (fun p : Pad => p.isReversed row column) id
    (fun p => Pad.Sorted p.rows) ?_ ?_ hx (by omega) hp
  · intro p w _ hp
    exact Pad.sorted_foldl hp _
  · intro p w _ hp
    simp only [isReversed_setPixel hscale hp, id_eq]
    have hsame : (row = w.y + 1 ∧ column / d.scale = w.x) ↔
        (w.x = column / d.scale ∧ w.y = row - 1) := by omega
    simp only [hsame]

theorem keepsTo_render (hscale : 1 ≤ d.scale) (size : Int × Int) :
    ∀ call ∈ (d.render s size).2,
      call.KeepsTo (s.height + 1) (s.width * d.scale) ∧ call.writesRow 0 = false := by
  intro call hcall
  rcases List.mem_append.mp hcall with hcall | hcall
  · obtain ⟨w, hw, hcall⟩ := List.mem_flatMap.mp hcall
    exact keepsTo_setPixel hscale hw call hcall
  · exact Call.keepsTo_of_spares (d.spares_refresh true size call hcall) _ _

/-! ## Titles -/

theorem fitTitle_eq {columns : Int} (hcolumns : 0 ≤ columns) (title : List Char) :
    Display.fitTitle columns title =
      title.take columns.toNat ++ List.replicate (columns.toNat - title.length) ' ' := by
  unfold Display.fitTitle
  rw [if_neg (by omega)]
  simp only [List.length_take]
  congr 2
  omega

theorem length_fitTitle {columns : Int} (hcolumns : 0 ≤ columns) (title : List Char) :
    ((Display.fitTitle columns title).length : Int) = columns := by
  rw [fitTitle_eq hcolumns, List.length_append, List.length_take, List.length_replicate]
  omega

theorem getElem?_fitTitle {columns : Int} {k : Nat} (hk : k < columns) (title : List Char) :
    (Display.fitTitle columns title)[k]? = some (title.getD k ' ') := by
  rw [fitTitle_eq (by omega), List.getElem?_append, List.length_take, List.getD_eq_getElem?_getD]
  split
  · rename_i hlt
    rw [List.getElem?_take_of_lt (by omega), List.getElem?_eq_getElem (by omega), Option.getD_some]
  · rename_i hge
    rw [List.getElem?_replicate_of_lt (by omega), List.getElem?_eq_none (by omega),
      Option.getD_none]

theorem isTitleRow_setTitle (hwidth : 0 ≤ d.titleWidth) (title : String) :
    ∃ call, (d.setTitle title).2 = [call] ∧ IsTitleRow d.titleWidth title call := by
  refine ⟨_, rfl, _, rfl, ?_, ?_⟩
  · rw [String.length_ofList]
    exact length_fitTitle hwidth title.toList
  · intro k hk
    rw [String.toList_ofList]
    exact getElem?_fitTitle hk title.toList

theorem isReversed_setTitle (hp : Pad.Sorted p.rows) (hrow : 1 ≤ row) (title : String) :
    ((d.setTitle title).2.foldl Pad.apply p).isReversed row column = p.isReversed row column := by
  refine (Pad.isReversed_write hp _ _ _ _ _ _).trans (if_neg ?_)
  rintro ⟨rfl, _⟩
  omega

/-! ## Runs -/

variable {height : Int} {drawings : List Drawing} {h : Transcript} {a : Drawing}

/-- What is known after these drawings on a display with a pad for its own resolution. -/
structure Drawn (d : Display) (drawings : List Drawing) (h : Transcript) : Prop where
  same : h.display.scale = d.scale ∧ h.display.width = d.width
  kept : ∃ made, h.calls = .newPad (d.height + 2) (d.titleWidth + 1) :: made ∧
    ∀ call ∈ made, call.KeepsTo (d.height + 1) d.titleWidth
  titles : List.Forall₂ (IsTitleRow d.titleWidth) (drawings.filterMap Drawing.title?)
    (h.calls.filter (·.writesRow 0))

theorem drawn_opened (d : Display) (width height : Int) :
    Drawn (d.setResolution width height).1 [] (.opened d width height) :=
  ⟨⟨rfl, rfl⟩, ⟨[], rfl, fun _ h => nomatch h⟩, .nil⟩

theorem Drawn.add (hh : Drawn d drawings h) {made : Display × List Call}
    (hsame : made.1.scale = h.display.scale ∧ made.1.width = h.display.width)
    (hkept : ∀ call ∈ made.2, call.KeepsTo (d.height + 1) d.titleWidth)
    (htitles : List.Forall₂ (IsTitleRow d.titleWidth) ([a].filterMap Drawing.title?)
      (made.2.filter (·.writesRow 0))) :
    Drawn d (drawings ++ [a]) (h.add made) where
  same := ⟨hsame.1.trans hh.same.1, hsame.2.trans hh.same.2⟩
  kept := by
    obtain ⟨before, hcalls, hbefore⟩ := hh.kept
    refine ⟨before ++ made.2, ?_, ?_⟩
    · rw [Transcript.add, hcalls, List.cons_append]
    · intro call hcall
      exact (List.mem_append.mp hcall).elim (hbefore call) (hkept call)
  titles := by
    rw [List.filterMap_append, Transcript.add, List.filter_append]
    exact List.rel_append hh.titles htitles

theorem Drawn.picture (hscale : 1 ≤ d.scale) (hh : Drawn d drawings h)
    (hfits : s.width = d.width ∧ s.height = d.height) (size : Int × Int) :
    Drawn d (drawings ++ [.picture s size]) (h.add (h.display.render s size)) := by
  have hcalls := keepsTo_render (s := s) (hh.same.1 ▸ hscale) size
  rw [hh.same.1, hfits.1, hfits.2] at hcalls
  refine hh.add (h.display.scale_refresh true size) (fun call hcall => (hcalls call hcall).1) ?_
  have hnone : (h.display.render s size).2.filter (·.writesRow 0) = [] := by
    rw [List.filter_eq_nil_iff]
    intro call hcall
    rw [(hcalls call hcall).2]
    exact Bool.false_ne_true
  rw [hnone]
  exact .nil

theorem Drawn.title (hwidth : 0 ≤ d.titleWidth) (hheight : 0 ≤ d.height) (hh : Drawn d drawings h)
    (text : String) :
    Drawn d (drawings ++ [.title text]) (h.add (h.display.setTitle text)) := by
  have hcolumns : h.display.titleWidth = d.titleWidth := by
    rw [Display.titleWidth, hh.same.1, hh.same.2, Display.titleWidth]
  obtain ⟨call, hcall, hrow⟩ := isTitleRow_setTitle (d := h.display) (hcolumns ▸ hwidth) text
  rw [hcolumns] at hrow
  have hkept : call.KeepsTo (d.height + 1) d.titleWidth ∧ call.writesRow 0 = true := by
    obtain ⟨_, rfl, hlength, _⟩ := hrow
    exact ⟨⟨⟨by omega, by omega⟩, by omega, by omega⟩, rfl⟩
  apply hh.add ⟨rfl, rfl⟩
  · rw [hcall]
    intro call' hcall'
    rw [List.mem_singleton.mp hcall']
    exact hkept.1
  · rw [hcall, List.filter_cons_of_pos hkept.2]
    exact .cons hrow .nil

theorem drawn_drawAll (hscale : 1 ≤ d.scale) (hwidth : 0 ≤ d.titleWidth) (hheight : 0 ≤ d.height)
    (hh : Drawn d [] h) (hfits : ∀ a ∈ drawings, a.Fits d.width d.height) :
    Drawn d drawings (h.drawAll drawings) := by
  induction drawings using List.reverseRecOn with
  | nil => exact hh
  | append_singleton earlier a ih =>
    have hearlier := ih fun a' ha' => hfits a' (List.mem_append_left _ ha')
    have ha := hfits a (List.mem_append_right _ List.mem_cons_self)
    rw [Transcript.drawAll_append]
    cases a with
    | picture s size => exact hearlier.picture hscale ha size
    | title text => exact hearlier.title hwidth hheight text

theorem Transcript.pad_add (h : Transcript) (made : Display × List Call) :
    (h.add made).pad = made.2.foldl Pad.apply h.pad := Pad.ofCalls_append _ _

/-- Titles that are written later leave the picture. -/
theorem isReversed_titles (hrow : 1 ≤ row) {titles : List Drawing}
    (htitles : ∀ a ∈ titles, a.title?.isSome) :
    (h.drawAll titles).pad.isReversed row column = h.pad.isReversed row column := by
  induction titles generalizing h with
  | nil => rfl
  | cons a rest ih =>
    cases a with
    | picture s size => cases htitles _ List.mem_cons_self
    | title text =>
      refine (ih fun a' ha' => htitles a' (List.mem_cons_of_mem _ ha')).trans ?_
      rw [Transcript.pad_add]
      exact isReversed_setTitle (Pad.sorted_ofCalls h.calls) hrow text

/-- On a display with a pad for pictures of some size, whatever pictures and titles are drawn: all
writes leave out the last row and the last column of the pad. The picture drawn last is there: a
cell below the title row is in reverse video exactly if the pixel is lit that its column divided by
the scale and its row lead to. The writes to the title row are those of the titles, one each, cut or
filled up to the width. A pixel, whenever it is written, changes its own cells only. -/
theorem picture_stretched (hscale : 1 ≤ d.scale) {width height : Int} (hwidth : 1 ≤ width)
    (hheight : 1 ≤ height) (hfits : ∀ a ∈ drawings, a.Fits width height) :
    let opened := Transcript.opened d width height
    let drawn := opened.drawAll drawings
    let columns := width * d.scale
    (∃ made, drawn.calls = .newPad (height + 2) (columns + 1) :: made ∧
      ∀ call ∈ made, call.KeepsTo (height + 1) columns) ∧
    (∀ earlier s size titles, drawings = earlier ++ .picture s size :: titles →
      (∀ a ∈ titles, a.title?.isSome) → ∀ row column, 1 ≤ row ∧ row ≤ height →
      0 ≤ column ∧ column < columns →
      drawn.pad.isReversed row column = s.lit (column / d.scale) (row - 1)) ∧
    List.Forall₂ (IsTitleRow columns) (drawings.filterMap Drawing.title?)
      (drawn.calls.filter (·.writesRow 0)) ∧
    (∀ calls x y lit row column,
      (Pad.ofCalls (calls ++ opened.display.setPixel x y lit)).isReversed row column =
        if row = y + 1 ∧ column / d.scale = x then lit
        else (Pad.ofCalls calls).isReversed row column) := by
  intro opened drawn columns
  have hcolumns : 0 ≤ columns := Int.mul_nonneg (by omega) (by omega)
  have hdrawn (drawings) (hfits : ∀ a ∈ drawings, Drawing.Fits width height a) :
      Drawn opened.display drawings (opened.drawAll drawings) :=
    drawn_drawAll hscale hcolumns (by change 0 ≤ height; omega) (drawn_opened d width height) hfits
  refine ⟨(hdrawn drawings hfits).kept, ?_, (hdrawn drawings hfits).titles, ?_⟩
  · rintro earlier s size titles rfl htitles row column hrow hcolumn
    obtain ⟨rfl, rfl⟩ := hfits (.picture s size) (by simp)
    have hbefore := hdrawn earlier fun a ha => hfits a (List.mem_append_left _ ha)
    have hpicture : drawn =
        ((opened.drawAll earlier).add ((opened.drawAll earlier).display.render s size)).drawAll
          titles := Transcript.drawAll_append _ _ _
    have hs : (opened.drawAll earlier).display.scale = d.scale := hbefore.same.1
    have hcolumn' : 0 ≤ column ∧
        column < s.width * (opened.drawAll earlier).display.scale := by rwa [hs]
    have hseen := isReversed_render (hs.symm ▸ hscale)
      (Pad.sorted_ofCalls (opened.drawAll earlier).calls) hrow hcolumn' size
    rw [hs] at hseen
    rw [hpicture, isReversed_titles hrow.1 htitles, Transcript.pad_add]
    exact hseen
  · intro calls x y lit row column
    rw [Pad.ofCalls_append]
    exact isReversed_setPixel hscale (Pad.sorted_ofCalls calls) x y lit

/-- A display whose pixels are three columns wide. -/
def wideTerminal : Display := ⟨.whole 3, 3, .hidden, 0, 0, true, false, (-1, -1)⟩

/-- Two by two pixels, of which the last one is lit. -/
def cornerScreen : Screen := (Screen.blank 2 2).toggle 1 1

/-- The first title is longer than the title row, the second is empty. -/
def cornerDrawings : List Drawing :=
  [.title "Chip-8 in a corner", .picture cornerScreen (40, 200), .title ""]

theorem picture_stretched_corner :
    let drawn := (Transcript.opened wideTerminal 2 2).drawAll cornerDrawings
    (1 ≤ wideTerminal.scale ∧ ∀ a ∈ cornerDrawings, a.Fits 2 2) ∧
      (drawn.pad.isReversed 2 2 = false ∧ drawn.pad.isReversed 2 3 = true ∧
        drawn.pad.isReversed 2 5 = true ∧ drawn.pad.isReversed 1 5 = false) ∧
      List.Forall₂ (IsTitleRow 6) ["Chip-8 in a corner", ""]
        (drawn.calls.filter (·.writesRow 0)) := by
  intro drawn
  have hscale : 1 ≤ wideTerminal.scale := by decide
  have hfits : ∀ a ∈ cornerDrawings, a.Fits 2 2 := by
    intro a ha
    simp only [cornerDrawings, List.mem_cons, List.not_mem_nil, or_false] at ha
    rcases ha with rfl | rfl | rfl
    · trivial
    · exact ⟨rfl, rfl⟩
    · trivial
  obtain ⟨_, hpicture, htitles, _⟩ := picture_stretched hscale (by decide) (by decide) hfits
  have hseen (row column : Int) (hrow : 1 ≤ row ∧ row ≤ 2) (hcolumn : 0 ≤ column ∧ column < 6) :
      drawn.pad.isReversed row column = cornerScreen.lit (column / 3) (row - 1) :=
    hpicture [.title "Chip-8 in a corner"] cornerScreen (40, 200) [.title ""] rfl
      (by simp [Drawing.title?]) row column hrow hcolumn
  refine ⟨⟨hscale, hfits⟩, ⟨?_, ?_, ?_, ?_⟩, htitles⟩
  · exact (hseen 2 2 (by decide) (by decide)).trans (by decide)
  · exact (hseen 2 3 (by decide) (by decide)).trans (by decide)
  · exact (hseen 2 5 (by decide) (by decide)).trans (by decide)
  · exact (hseen 1 5 (by decide) (by decide)).trans (by decide)

end Chip8.Terminal
