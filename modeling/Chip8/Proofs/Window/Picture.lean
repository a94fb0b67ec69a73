import Chip8.Proofs.Screen.Place
import Chip8.Window.Display

/-! # The picture in the window

The buffer has three bytes for every pixel, in the order in which a screen numbers its pixels. So
pixels do not share bytes and leave none out, and once all pixels of a screen are written the buffer
is the picture of that screen, whatever it was before. -/

namespace Chip8.Window.Display

variable {d : Display} {rgb : Array UInt8} {width height x y : Int} {k : Nat}

/-! ## Bytes -/

theorem size_overwrite (rgb : Array UInt8) (place : Nat) (bytes : List UInt8) :
    (overwrite rgb place bytes).size = rgb.size := by
  induction bytes generalizing rgb place with
  | nil => rfl
  | cons b rest ih => rw [overwrite, ih, Array.size_setIfInBounds]

theorem getElem?_overwrite {place : Nat} {bytes : List UInt8}
    (hfits : place + bytes.length ≤ rgb.size) :
    (overwrite rgb place bytes)[k]? =
      if place ≤ k ∧ k < place + bytes.length then bytes[k - place]? else rgb[k]? := by
  induction bytes generalizing rgb place with
  | nil =>
    rw [overwrite, if_neg]
    rw [List.length_nil]
    omega
  | cons b rest ih =>
    rw [List.length_cons] at hfits ⊢
    have hrest : place + 1 + rest.length ≤ (rgb.setIfInBounds place b).size := by
      rw [Array.size_setIfInBounds]
      omega
    rw [overwrite, ih hrest, Array.getElem?_setIfInBounds]
    by_cases hfirst : place = k
    · subst hfirst
      rw [if_neg (by omega), if_pos rfl, if_pos (by omega), if_pos (by omega), Nat.sub_self]
      rfl
    · rw [if_neg hfirst]
      by_cases hlater : place + 1 ≤ k ∧ k < place + 1 + rest.length
      · have hindex : k - place = k - (place + 1) + 1 := by omega
        rw [if_pos hlater, if_pos (by omega), hindex, List.getElem?_cons_succ]
      · rw [if_neg hlater, if_neg (by omega)]

/-- Each of the three bytes of a pixel. -/
def shade (lit : Bool) : UInt8 := if lit then 0xDD else 0x22

theorem bytesOf_eq (lit : Bool) : bytesOf lit = List.replicate 3 (shade lit) := by
  cases lit <;> rfl

/-! ## Pixels -/

/-- The buffer has three bytes for every pixel of this resolution. -/
structure Sized (d : Display) (width height : Int) : Prop where
  sameWidth : d.width = width
  sameHeight : d.height = height
  bytes : (d.rgb.size : Int) = 3 * (width * height)

/-- The first byte of a pixel. -/
def pixelStart (width x y : Int) : Nat := ((y * width + x) * 3).toNat

/-- The bytes from `first` on are those of one pixel, and all others are as they were. -/
def PixelChanged (before after : Array UInt8) (first : Nat) (lit : Bool) : Prop :=
  ∀ k, after[k]? = if first ≤ k ∧ k < first + 3 then some (shade lit) else before[k]?

theorem row_major_bounds (hx : 0 ≤ x ∧ x < width) (hy : 0 ≤ y ∧ y < height) :
    0 ≤ y * width + x ∧ y * width + x < width * height := by
  have hrow : 0 ≤ y * width := Int.mul_nonneg hy.1 (by omega)
  have hrows : (y + 1) * width ≤ height * width :=
    Int.mul_le_mul_of_nonneg_right hy.2 (by omega)
  rw [Int.add_mul, Int.one_mul, Int.mul_comm height] at hrows
  omega

theorem sliceEnd_of_le (size : Nat) (place : Int) (h : 0 ≤ place ∧ place ≤ size) :
    sliceEnd size place = place.toNat := by
  unfold sliceEnd
  rw [if_neg (by omega)]
  omega

theorem place?_of_inside (hd : d.Sized width height) (hx : 0 ≤ x ∧ x < width)
    (hy : 0 ≤ y ∧ y < height) :
    d.place? x y = some (pixelStart width x y) ∧ pixelStart width x y + 3 ≤ d.rgb.size := by
  have hbounds := row_major_bounds hx hy
  have hsize := hd.bytes
  have hfirst := sliceEnd_of_le d.rgb.size ((y * width + x) * 3) (by omega)
  have hlast := sliceEnd_of_le d.rgb.size ((y * width + x) * 3 + 3) (by omega)
  unfold place? pixelStart
  rw [hd.sameWidth]
  simp only []
  rw [hfirst, hlast, if_pos (by omega)]
  exact ⟨rfl, by omega⟩

theorem Sized.paint (hd : d.Sized width height) (place : Nat) (bytes : List UInt8) :
    (d.paint place bytes).Sized width height where
  sameWidth := hd.sameWidth
  sameHeight := hd.sameHeight
  bytes := by
    rw [Display.paint, size_overwrite]
    exact hd.bytes

theorem pixelChanged_paint {first : Nat} (hfits : first + 3 ≤ d.rgb.size) (lit : Bool) :
    PixelChanged d.rgb (d.paint first (bytesOf lit)).rgb first lit := by
  intro k
  have hlength : (bytesOf lit).length = 3 := by rw [bytesOf_eq, List.length_replicate]
  rw [paint, getElem?_overwrite (by rwa [hlength]), hlength]
  by_cases hin : first ≤ k ∧ k < first + 3
  · rw [if_pos hin, if_pos hin, bytesOf_eq, List.getElem?_replicate_of_lt (by omega)]
  · rw [if_neg hin, if_neg hin]

theorem setPixel_of_inside (hd : d.Sized width height) (hx : 0 ≤ x ∧ x < width)
    (hy : 0 ≤ y ∧ y < height) (lit : Bool) :
    d.setPixel x y lit.toInt = .ok (d.paint (pixelStart width x y) (bytesOf lit)) := by
  have hcolour : colour? lit.toInt = some (bytesOf lit) := by cases lit <;> rfl
  unfold setPixel
  rw [hcolour, (place?_of_inside hd hx hy).1]

/-! ## Pictures -/

/-- Writes pixels one after the other. -/
def setPixels (d : Display) (writes : List Screen.PixelWrite) :
    Except Chip8.Display.Fault Display :=
  writes.foldlM (fun d w => d.setPixel w.x w.y w.lit.toInt) d

/-- The writes are those of pixels in this rectangle. -/
def InRectangle (width height : Int) (writes : List Screen.PixelWrite) : Prop :=
  ∀ w ∈ writes, (0 ≤ w.x ∧ w.x < width) ∧ 0 ≤ w.y ∧ w.y < height

theorem inRectangle_pixelWrites (s : Screen) : InRectangle s.width s.height s.pixelWrites := by
  intro w hw
  obtain ⟨hx, hy, _⟩ := Screen.mem_pixelWrites.mp hw
  exact ⟨hx, hy⟩

theorem draw_of_inside (hd : d.Sized width height) {w : Screen.PixelWrite}
    (hw : (0 ≤ w.x ∧ w.x < width) ∧ 0 ≤ w.y ∧ w.y < height) :
    d.draw w = d.paint (pixelStart width w.x w.y) (bytesOf w.lit) := by
  unfold draw
  rw [(place?_of_inside hd hw.1 hw.2).1]

theorem Sized.foldl_draw (hd : d.Sized width height) {writes : List Screen.PixelWrite}
    (hin : InRectangle width height writes) : (writes.foldl draw d).Sized width height := by
  induction writes generalizing d with
  | nil => exact hd
  | cons w rest ih =>
    rw [List.foldl_cons, draw_of_inside hd (hin w List.mem_cons_self)]
    exact ih (hd.paint _ _) fun w' hw' => hin w' (List.mem_cons_of_mem w hw')

/-- Inside the rectangle no write is refused. -/
theorem drawAll_of_inside (hd : d.Sized width height) {writes : List Screen.PixelWrite}
    (hin : InRectangle width height writes) :
    d.drawAll writes = (writes.foldl draw d, none) ∧
      d.setPixels writes = .ok (writes.foldl draw d) := by
  induction writes generalizing d with
  | nil => exact ⟨rfl, rfl⟩
  | cons w rest ih =>
    have hw := hin w List.mem_cons_self
    obtain ⟨hall, hpixels⟩ := ih (hd.paint (pixelStart width w.x w.y) (bytesOf w.lit))
      fun w' hw' => hin w' (List.mem_cons_of_mem w hw')
    rw [List.foldl_cons, draw_of_inside hd hw]
    constructor
    · unfold drawAll
      rw [(place?_of_inside hd hw.1 hw.2).1]
      exact hall
    · unfold setPixels
      rw [List.foldlM_cons, setPixel_of_inside hd hw.1 hw.2]
      exact hpixels

variable {s : Screen}

theorem pixelStart_eq (hx : 0 ≤ x ∧ x < s.width) (hy : 0 ≤ y ∧ y < s.height) :
    pixelStart s.width x y = 3 * s.place x y := by
  have hrow : 0 ≤ y * s.width := Int.mul_nonneg hy.1 (by omega)
  rw [Screen.place_of_inside hx hy, ← Int.toNat_mul hy.1 (by omega), pixelStart]
  omega

/-- Only the pixel itself has these bytes. -/
theorem within_pixel_iff {x' y' : Int} {j : Nat} (hx : 0 ≤ x ∧ x < s.width)
    (hy : 0 ≤ y ∧ y < s.height) (hx' : 0 ≤ x' ∧ x' < s.width) (hy' : 0 ≤ y' ∧ y' < s.height)
    (hj : j < 3) :
    (pixelStart s.width x' y' ≤ pixelStart s.width x y + j ∧
        pixelStart s.width x y + j < pixelStart s.width x' y' + 3) ↔ x' = x ∧ y' = y := by
  -- Pixels are three bytes apart, so those of different places do not meet.
  rw [pixelStart_eq hx hy, pixelStart_eq hx' hy',
    ← Screen.place_eq_iff_of_inside ⟨hx', hy'⟩ ⟨hx, hy⟩]
  omega

/-- Once its pixels are written, the buffer is the picture of the screen. -/
theorem bytes_foldl_draw (hd : d.Sized s.width s.height) (hx : 0 ≤ x ∧ x < s.width)
    (hy : 0 ≤ y ∧ y < s.height) {j : Nat} (hj : j < 3) :
    (s.pixelWrites.foldl draw d).rgb[pixelStart s.width x y + j]? = some (shade (s.lit x y)) := by
  have hin := inRectangle_pixelWrites s
  refine Screen.look_foldl_pixelWrites (fun d : Display => d.rgb[pixelStart s.width x y + j]?)
    (fun lit => some (shade lit)) (fun d => d.Sized s.width s.height) ?_ ?_ hx hy hd
  · intro d w hw hd
    rw [draw_of_inside hd (hin w hw)]
    exact hd.paint _ _
  · intro d w hw hd
    obtain ⟨hx', hy'⟩ := hin w hw
    have hfits := (place?_of_inside hd hx' hy').2
    simp only [draw_of_inside hd (hin w hw), pixelChanged_paint hfits w.lit _,
      within_pixel_iff hx hy hx' hy' hj]

/-- The calls that show a buffer in a window of this scale. -/
def showCalls (d : Display) (width height : Int) : List Call :=
  [.image d.rgb width height, .stretch (windowSize d.scale).1 (windowSize d.scale).2, .place 0 0,
    .flip]

theorem refresh_of_sized (hd : d.Sized width height) (hwidth : 1 ≤ width) (hheight : 1 ≤ height) :
    d.refresh true = showCalls d width height := by
  have hpixels : 0 < width * height := Int.mul_pos hwidth hheight
  have hsize := hd.bytes
  have hsome : d.rgb.isEmpty = false := by
    rw [Array.isEmpty_eq_false_iff, ← Array.size_pos_iff]
    omega
  unfold refresh showCalls
  rw [hsome, hd.sameWidth, hd.sameHeight]
  rfl

theorem sized_setResolution (d : Display) {width height : Int} (hwidth : 0 ≤ width)
    (hheight : 0 ≤ height) : (d.setResolution width height).1.Sized width height where
  sameWidth := rfl
  sameHeight := rfl
  bytes := by
    have hpixels := Int.mul_nonneg hwidth hheight
    have hbuffer : (d.setResolution width height).1.rgb.size = (width * height).toNat * 3 := by
      simp [setResolution, background]
    rw [hbuffer]
    omega

theorem scale_foldl_draw (d : Display) (writes : List Screen.PixelWrite) :
    (writes.foldl draw d).scale = d.scale := by
  induction writes generalizing d with
  | nil => rfl
  | cons w rest ih =>
    rw [List.foldl_cons, ih]
    unfold draw
    split <;> rfl

theorem render_of_sized (hd : d.Sized s.width s.height) (hwidth : 1 ≤ s.width)
    (hheight : 1 ≤ s.height) :
    let shown := s.pixelWrites.foldl draw d
    d.render s = (shown, .ok (showCalls shown s.width s.height)) := by
  intro shown
  have hin := inRectangle_pixelWrites s
  unfold render
  rw [(drawAll_of_inside hd hin).1]
  simp only [refresh_of_sized (hd.foldl_draw hin) hwidth hheight]
  rfl

/-- The display after pictures were shown on it. -/
def renderAll (d : Display) (screens : List Screen) : Display :=
  screens.foldl (fun d s => (d.render s).1) d

theorem sized_renderAll (hd : d.Sized width height) (hwidth : 1 ≤ width) (hheight : 1 ≤ height)
    {screens : List Screen} (hscreens : ∀ s ∈ screens, s.width = width ∧ s.height = height) :
    (d.renderAll screens).Sized width height ∧ (d.renderAll screens).scale = d.scale := by
  induction screens generalizing d with
  | nil => exact ⟨hd, rfl⟩
  | cons s rest ih =>
    obtain ⟨rfl, rfl⟩ := hscreens s List.mem_cons_self
    have hfirst : (d.render s).1 = s.pixelWrites.foldl draw d :=
      congrArg Prod.fst (render_of_sized hd hwidth hheight)
    obtain ⟨hsized, hscale⟩ := ih (d := (d.render s).1)
      (hfirst ▸ hd.foldl_draw (inRectangle_pixelWrites s))
      fun s' hs' => hscreens s' (List.mem_cons_of_mem s hs')
    refine ⟨hsized, hscale.trans ?_⟩
    rw [hfirst, scale_foldl_draw]

/-- The buffer is that of this screen: every pixel has its three bytes, in row-major order, and
there are no others. -/
def ShowsScreen (rgb : Array UInt8) (s : Screen) : Prop :=
  (rgb.size : Int) = 3 * (s.width * s.height) ∧
    ∀ x y, 0 ≤ x ∧ x < s.width → 0 ≤ y ∧ y < s.height → ∀ j < 3,
      rgb[pixelStart s.width x y + j]? = some (if s.lit x y then 0xDD else 0x22)

/-- On a display of some resolution, whatever screens of that resolution are shown: no pixel write
is refused, the buffer has three bytes a pixel at any time, and each screen ends in one image,
stretched, placed and flipped, of a buffer that is the picture of that screen alone. A pixel of a
buffer of this size, whatever is in it, is three bytes, and writing it leaves all others. -/
theorem picture_exact (d₀ : Display) (hwidth : 1 ≤ width) (hheight : 1 ≤ height)
    {screens : List Screen} (hscreens : ∀ s ∈ screens, s.width = width ∧ s.height = height) :
    let d := (d₀.setResolution width height).1
    d.Sized width height ∧
    (∀ before s after, screens = before ++ s :: after →
      let d₁ := d.renderAll before
      (∀ n, ∃ d', d₁.setPixels (s.pixelWrites.take n) = .ok d' ∧ d'.Sized width height) ∧
      ∃ d₂, d₁.setPixels s.pixelWrites = .ok d₂ ∧ d₂.scale = d₀.scale ∧
        d₁.render s = (d₂, .ok (showCalls d₂ width height)) ∧ ShowsScreen d₂.rgb s) ∧
    (∀ (d₁ : Display) x y (lit : Bool), d₁.Sized width height →
      0 ≤ x ∧ x < width → 0 ≤ y ∧ y < height →
      ∃ d₂, d₁.setPixel x y lit.toInt = .ok d₂ ∧ d₂.Sized width height ∧
        PixelChanged d₁.rgb d₂.rgb (pixelStart width x y) lit) := by
  intro d
  have hd : d.Sized width height := sized_setResolution d₀ (by omega) (by omega)
  refine ⟨hd, ?_, ?_⟩
  · rintro before s after rfl d₁
    obtain ⟨rfl, rfl⟩ := hscreens s (by simp)
    obtain ⟨hsized, hscale⟩ := sized_renderAll hd hwidth hheight
      fun s' hs' => hscreens s' (List.mem_append_left _ hs')
    have hin := inRectangle_pixelWrites s
    constructor
    · intro n
      have htaken : InRectangle s.width s.height (s.pixelWrites.take n) :=
        fun w hw => hin w (List.mem_of_mem_take hw)
      exact ⟨_, (drawAll_of_inside hsized htaken).2, hsized.foldl_draw htaken⟩
    · refine ⟨_, (drawAll_of_inside hsized hin).2, (scale_foldl_draw d₁ _).trans hscale,
        render_of_sized hsized hwidth hheight, (hsized.foldl_draw hin).bytes, ?_⟩
      exact fun x y hx hy j hj => bytes_foldl_draw hsized hx hy hj
  · intro d₁ x y lit hd₁ hx hy
    exact ⟨_, setPixel_of_inside hd₁ hx hy lit, hd₁.paint _ _,
      pixelChanged_paint (place?_of_inside hd₁ hx hy).2 lit⟩

/-- Two by one pixels, of which the right one is lit. -/
def rightLit : Screen := (Screen.blank 2 1).toggle 1 0

def leftLit : Screen := (Screen.blank 2 1).toggle 0 0

/-- The second picture is its own, although the first one lit the other pixel. -/
theorem picture_exact_twice :
    let d := ((⟨.whole 512, 0, 0, #[]⟩ : Display).setResolution 2 1).1
    (∀ s ∈ [rightLit, leftLit], s.width = 2 ∧ s.height = 1) ∧
      ∃ d₂, (d.renderAll [rightLit]).render leftLit = (d₂, .ok (showCalls d₂ 2 1)) ∧
        d₂.scale = .whole 512 ∧
        d₂.rgb[0]? = some 0xDD ∧ d₂.rgb[5]? = some 0x22 ∧ d₂.rgb.size = 6 := by
  intro d
  have hscreens : ∀ s ∈ [rightLit, leftLit], s.width = 2 ∧ s.height = 1 := by
    intro s hs
    simp only [List.mem_cons, List.not_mem_nil, or_false] at hs
    rcases hs with rfl | rfl <;> exact ⟨rfl, rfl⟩
  obtain ⟨_, hshown, _⟩ := picture_exact ⟨.whole 512, 0, 0, #[]⟩ (by decide) (by decide) hscreens
  obtain ⟨_, d₂, _, hscale, hrender, hsize, hbytes⟩ := hshown [rightLit] leftLit [] rfl
  refine ⟨hscreens, d₂, hrender, hscale, ?_, ?_, Int.ofNat_inj.mp hsize⟩
  · exact hbytes 0 0 (by decide) (by decide) 0 (by decide)
  · exact hbytes 1 0 (by decide) (by decide) 2 (by decide)

end Chip8.Window.Display
