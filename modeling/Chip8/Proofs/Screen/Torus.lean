import Mathlib.Data.Int.ModEq
import Chip8.HostLoop
import Chip8.Proofs.Screen
import Chip8.Proofs.Screen.Place

/-! # The screen as a torus

Both coordinates wrap around, so every point of the plane shows a pixel, and two points show the
same one exactly if they are whole screens apart. The points of the rectangle show every pixel once.
A look at a point, a switch and the colour that is handed to a display are about one pixel. -/

namespace Chip8.Screen

variable {s : Screen} {x y x' y' : Int} {k : Nat}

/-! ## The pixel that a point shows -/

/-- Whatever is on the screen, a look at the point finds what the pixel `k` holds. -/
def Reads (s : Screen) (x y : Int) (k : Nat) : Prop :=
  ∀ u, s.SameShape u → ∃ lit, u.pixels[k]? = some lit ∧ u.getPixel x y = .ok lit

/-- The pixel `k`, which was lit or was not, is switched over, and nothing else has changed. -/
structure SwitchedOver (s t : Screen) (k : Nat) (was : Bool) : Prop where
  shape : s.SameShape t
  flag : t.redraw = s.redraw
  before : s.pixels[k]? = some was
  after : t.pixels[k]? = some !was
  others : ∀ j, j ≠ k → t.pixels[j]? = s.pixels[j]?

section Pixels

variable (hw : 0 < s.width) (hh : 0 < s.height)

include hw hh

theorem getElem?_place (x y : Int) : s.pixels[s.place x y]? = some (s.lit x y) := by
  have hlt := place_lt hw hh x y
  rw [lit, Array.getD_eq_getD_getElem?, Array.getElem?_eq_getElem hlt, Option.getD_some]

theorem switchedOver_toggle (x y : Int) :
    s.SwitchedOver (s.toggle x y) (s.place x y) (s.lit x y) where
  shape := ⟨rfl, rfl⟩
  flag := rfl
  before := getElem?_place hw hh x y
  after := Array.getElem?_setIfInBounds_self_of_lt (place_lt hw hh x y)
  others := fun _ hj => Array.getElem?_setIfInBounds_ne (Ne.symm hj)

theorem reads_place (x y : Int) : s.Reads x y (s.place x y) := by
  intro u hshape
  have hw' : 0 < u.width := hshape.1 ▸ hw
  have hh' : 0 < u.height := hshape.2 ▸ hh
  refine ⟨u.lit x y, ?_, getPixel_of_pixels hw' hh' x y⟩
  rw [← hshape.same_place]
  exact getElem?_place hw' hh' x y

/-- A point that is switched over on a dark screen lights its own pixel and no other. -/
theorem lit_toggle_blank_iff :
    ((blank s.width s.height).toggle x y).pixels[k]? = some true ↔ k = s.place x y := by
  have hplace := SameShape.same_place (s := s) (t := blank s.width s.height) ⟨rfl, rfl⟩ x y
  have hswitched := switchedOver_toggle (s := blank s.width s.height) hw hh x y
  rw [hplace, lit_blank] at hswitched
  constructor
  · intro hlit
    by_contra hne
    rw [hswitched.others k hne] at hlit
    simp [blank, Array.getElem?_replicate] at hlit
  · rintro rfl
    exact hswitched.after

/-- A point shows the pixel at its place and no other. -/
theorem reads_iff : s.Reads x y k ↔ k = s.place x y := by
  constructor
  · intro hreads
    -- The dark screen with the point switched over tells its pixel from all others.
    have hshape : s.SameShape ((blank s.width s.height).toggle x y) := ⟨rfl, rfl⟩
    obtain ⟨lit, hpixel, hlook⟩ := hreads _ hshape
    obtain ⟨lit', hpixel', hlook'⟩ := reads_place hw hh x y _ hshape
    have hsame : lit = lit' := Except.ok.inj (hlook.symm.trans hlook')
    have hlit : lit' = true :=
      Option.some.inj (hpixel'.symm.trans ((lit_toggle_blank_iff hw hh).mpr rfl))
    rw [hsame, hlit] at hpixel
    exact (lit_toggle_blank_iff hw hh).mp hpixel
  · rintro rfl
    exact reads_place hw hh x y

theorem reads_place_iff :
    s.Reads x' y' (s.place x y) ↔ x' ≡ x [ZMOD s.width] ∧ y' ≡ y [ZMOD s.height] := by
  rw [reads_iff hw hh, eq_comm, place_eq_place_iff hw hh]
  rfl

end Pixels

/-! ## The points of the rectangle -/

/-- The point that comes at this place if one goes through the rectangle row by row. -/
def pointAt (s : Screen) (k : Nat) : Int × Int := (k % s.width, k / s.width)

theorem pointAt_eq (hw : 0 < s.width) (k : Nat) :
    s.pointAt k = (((k % s.width.toNat : Nat) : Int), ((k / s.width.toNat : Nat) : Int)) := by
  rw [Int.natCast_mod, Int.natCast_div, Int.toNat_of_nonneg (Int.le_of_lt hw)]
  rfl

section Rows

variable (hw : 0 < s.width) (hh : 0 < s.height)

include hw hh

theorem size_eq : s.pixels.size = s.height.toNat * s.width.toNat := by
  rw [s.pixels_size, Int.toNat_mul (Int.le_of_lt hw) (Int.le_of_lt hh), Nat.mul_comm]

theorem inside_pointAt (hk : k < s.pixels.size) : s.Inside (s.pointAt k).1 (s.pointAt k).2 := by
  rw [size_eq hw hh, Nat.mul_comm] at hk
  have hcolumn : k % s.width.toNat < s.width.toNat := Nat.mod_lt k (by omega)
  have hrow : k / s.width.toNat < s.height.toNat := Nat.div_lt_of_lt_mul hk
  rw [pointAt_eq hw]
  exact ⟨⟨Int.natCast_nonneg _, Int.lt_toNat.mp hcolumn⟩,
    Int.natCast_nonneg _, Int.lt_toNat.mp hrow⟩

theorem place_pointAt (hk : k < s.pixels.size) :
    s.place (s.pointAt k).1 (s.pointAt k).2 = k := by
  have hinside := inside_pointAt hw hh hk
  rw [place_of_inside hinside.1 hinside.2, pointAt_eq hw, Int.toNat_natCast, Int.toNat_natCast]
  exact Nat.div_add_mod' k s.width.toNat

/-- Every pixel is shown by one point of the rectangle. -/
theorem existsUnique_inside_reads (hk : k < s.pixels.size) :
    ∃! p : Int × Int, s.Inside p.1 p.2 ∧ s.Reads p.1 p.2 k := by
  have hinside := inside_pointAt hw hh hk
  have hplace := place_pointAt hw hh hk
  refine ⟨s.pointAt k, ⟨hinside, (reads_iff hw hh).mpr hplace.symm⟩, ?_⟩
  rintro ⟨x, y⟩ ⟨hinside', hreads⟩
  have hsame : s.place x y = s.place (s.pointAt k).1 (s.pointAt k).2 :=
    ((reads_iff hw hh).mp hreads).symm.trans hplace.symm
  obtain ⟨hx, hy⟩ := (place_eq_iff_of_inside hinside' hinside).mp hsame
  exact Prod.ext hx hy

end Rows

/-! ## The pixels row by row -/

/-- Rows of one length, laid end to end. -/
theorem flatMap_range_rows {α : Type} (f : Nat → Nat → α) (rows columns : Nat) :
    ((List.range rows).flatMap fun y => (List.range columns).map fun x => f x y) =
      (List.range (rows * columns)).map fun k => f (k % columns) (k / columns) := by
  induction rows with
  | zero =>
    rw [Nat.zero_mul]
    rfl
  | succ rows ih =>
    rw [List.range_succ, List.flatMap_append, ih, List.flatMap_singleton, Nat.succ_mul,
      List.range_add, List.map_append, List.map_map]
    congr 1
    refine List.map_congr_left fun x hx => ?_
    have hx' : x < columns := List.mem_range.mp hx
    rw [Function.comp_apply, Nat.mul_add_mod_of_lt hx', Nat.mul_comm,
      Nat.mul_add_div (Nat.zero_lt_of_lt hx'), Nat.div_eq_of_lt hx', Nat.add_zero]

theorem points_pixelWrites (hw : 0 < s.width) (hh : 0 < s.height) :
    s.pixelWrites.map PixelWrite.point = (List.range s.pixels.size).map s.pointAt := by
  have hrows := flatMap_range_rows (fun x y => ((x : Int), (y : Int))) s.height.toNat s.width.toNat
  rw [size_eq hw hh, funext (pointAt_eq hw), ← hrows, pixelWrites, List.map_flatMap]
  simp only [List.map_map]
  rfl

/-- The writes go through the rectangle row by row and once through each of its points. The point of
the write `k` shows the pixel `k`, and its colour is the one that a look at the point finds. -/
structure RowByRow (s : Screen) (writes : List PixelWrite) : Prop where
  order : writes.map PixelWrite.point =
    (List.range s.pixels.size).map fun (k : Nat) => (k % s.width, k / s.width)
  once : ∀ x y, s.Inside x y → (writes.map PixelWrite.point).count (x, y) = 1
  reads : ∀ k w, writes[k]? = some w → s.Reads w.x w.y k
  colour : ∀ w ∈ writes, s.getPixel w.x w.y = .ok w.lit

theorem place_of_write (hw : 0 < s.width) (hh : 0 < s.height) {w : PixelWrite}
    (hk : s.pixelWrites[k]? = some w) : s.place w.x w.y = k := by
  have hpoint : (s.pixelWrites.map PixelWrite.point)[k]? = some (w.x, w.y) := by
    rw [List.getElem?_map, hk]
    rfl
  rw [points_pixelWrites hw hh] at hpoint
  obtain ⟨hlt, hpoint⟩ := List.getElem?_eq_some_iff.mp hpoint
  rw [List.length_map, List.length_range] at hlt
  rw [List.getElem_map, List.getElem_range] at hpoint
  have hplace := place_pointAt hw hh hlt
  rwa [hpoint] at hplace

theorem rowByRow_pixelWrites (hw : 0 < s.width) (hh : 0 < s.height) :
    s.RowByRow s.pixelWrites where
  order := points_pixelWrites hw hh
  once := by
    intro x y hinside
    refine List.count_eq_one_of_mem (nodup_pixelWrites s) (List.mem_map.mpr ?_)
    exact ⟨⟨x, y, s.lit x y⟩, mem_pixelWrites.mpr ⟨hinside.1, hinside.2, rfl⟩, rfl⟩
  reads := fun _ _ hk => (reads_iff hw hh).mpr (place_of_write hw hh hk).symm
  colour := by
    intro w hmem
    rw [getPixel_of_pixels hw hh, (mem_pixelWrites.mp hmem).2.2]

/-- On every screen that has pixels, whatever the point: to switch it over does not fail, tells
whether its pixel was lit and changes that pixel alone, which is shown by the points whole screens
away and by no others. Every point shows one pixel, and every pixel is shown by one point of the
rectangle. The pixels are handed over row by row, as a look at their points finds them. -/
theorem addressing_bijective (hw : 1 ≤ s.width) (hh : 1 ≤ s.height) :
    (∀ x y, ∃ k was t, s.xorPixel x y = .ok (was, t) ∧ s.SwitchedOver t k was ∧
      ∀ x' y', s.Reads x' y' k ↔ x' ≡ x [ZMOD s.width] ∧ y' ≡ y [ZMOD s.height]) ∧
    ((s.pixels.size : Int) = s.width * s.height ∧ (∀ x y, ∃! k, s.Reads x y k) ∧
      ∀ k < s.pixels.size, ∃! p : Int × Int, s.Inside p.1 p.2 ∧ s.Reads p.1 p.2 k) ∧
    ∃ writes, s.render = writes.map .pixel ++ [.refresh] ∧ s.RowByRow writes := by
  refine ⟨fun x y => ?_, ⟨?_, fun x y => ?_, fun k => existsUnique_inside_reads hw hh⟩, ?_⟩
  · exact ⟨s.place x y, s.lit x y, s.toggle x y, xorPixel_of_pixels hw hh x y,
      switchedOver_toggle hw hh x y, fun x' y' => reads_place_iff hw hh⟩
  · have hpixels : 0 < s.width * s.height := Int.mul_pos hw hh
    rw [s.pixels_size, Int.toNat_of_nonneg (Int.le_of_lt hpixels)]
  · exact ⟨s.place x y, reads_place hw hh x y, fun k hk => (reads_iff hw hh).mp hk⟩
  · exact ⟨s.pixelWrites, rfl, rowByRow_pixelWrites hw hh⟩

/-- Four by three pixels, of which one is lit. -/
def middleLit : Screen := (blank 4 3).toggle 1 1

/-- A point beyond the left edge and far below wraps around to the pixel that is lit. -/
theorem addressing_bijective_farBelow :
    1 ≤ middleLit.width ∧ 1 ≤ middleLit.height ∧
      ∃ t, middleLit.xorPixel (-3) 3000000000000000000001 = .ok (true, t) ∧
        middleLit.SwitchedOver t 5 true ∧
        ∀ x y, middleLit.Reads x y 5 ↔ x ≡ -3 [ZMOD 4] ∧ y ≡ 3000000000000000000001 [ZMOD 3] := by
  have hw : 1 ≤ middleLit.width := by decide
  have hh : 1 ≤ middleLit.height := by decide
  obtain ⟨hxor, ⟨_, hone, _⟩, writes, _, hrows⟩ := addressing_bijective hw hh
  obtain ⟨k, was, t, ht, hswitched, hreads⟩ := hxor (-3) 3000000000000000000001
  have hpoint : (writes.map PixelWrite.point)[5]? = some (1, 1) := by
    rw [hrows.order]
    rfl
  rw [List.getElem?_map, Option.map_eq_some_iff] at hpoint
  obtain ⟨w, hwrite, hpoint⟩ := hpoint
  obtain ⟨hx, hy⟩ := Prod.mk.inj hpoint
  have hfive := hrows.reads 5 w hwrite
  rw [hx, hy] at hfive
  have hk : k = 5 := (hone 1 1).unique ((hreads 1 1).mpr ⟨by decide, by decide⟩) hfive
  subst hk
  have hwas : some was = some true := hswitched.before.symm
  cases hwas
  exact ⟨hw, hh, t, ht, hswitched, hreads⟩

end Chip8.Screen
