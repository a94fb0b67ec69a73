import Mathlib.Data.List.Nodup
import Chip8.Screen

/-! # The pixels that a screen hands over

Every point of the rectangle is handed over once, with the colour that it has, and nothing outside
the rectangle is. -/

namespace Chip8.Screen

/-- The point that a write is about. -/
def PixelWrite.point (w : PixelWrite) : Int × Int := (w.x, w.y)

/-- Inside the rectangle no coordinate wraps around. -/
theorem place_of_inside {s : Screen} {x y : Int} (hx : 0 ≤ x ∧ x < s.width)
    (hy : 0 ≤ y ∧ y < s.height) : s.place x y = y.toNat * s.width.toNat + x.toNat := by
  have hrow : (0 : Int) ≤ y * s.width := Int.mul_nonneg hy.1 (by omega)
  have hcast : ((y.toNat * s.width.toNat + x.toNat : Nat) : Int) = y * s.width + x := by
    rw [Int.natCast_add, Int.natCast_mul, Int.toNat_of_nonneg hy.1, Int.toNat_of_nonneg hx.1,
      Int.toNat_of_nonneg (by omega)]
  unfold place
  rw [Int.fmod_eq_of_lt hy.1 hy.2, Int.fmod_eq_of_lt hx.1 hx.2]
  simp only []
  rw [if_neg (by omega), ← hcast, Int.toNat_natCast]

/-- A write is made exactly for a point of the rectangle and its colour. -/
theorem mem_pixelWrites {s : Screen} {w : PixelWrite} :
    w ∈ s.pixelWrites ↔
      (0 ≤ w.x ∧ w.x < s.width) ∧ (0 ≤ w.y ∧ w.y < s.height) ∧ w.lit = s.lit w.x w.y := by
  unfold pixelWrites
  simp only [List.mem_flatMap, List.mem_map, List.mem_range]
  constructor
  · rintro ⟨y, hy, x, hx, rfl⟩
    have hx' : 0 ≤ (x : Int) ∧ (x : Int) < s.width := by omega
    have hy' : 0 ≤ (y : Int) ∧ (y : Int) < s.height := by omega
    refine ⟨hx', hy', ?_⟩
    unfold lit
    rw [place_of_inside hx' hy', Int.toNat_natCast, Int.toNat_natCast]
  · rintro ⟨hx, hy, hlit⟩
    refine ⟨w.y.toNat, by omega, w.x.toNat, by omega, ?_⟩
    unfold lit at hlit
    rw [place_of_inside hx hy] at hlit
    rw [← hlit, Int.toNat_of_nonneg hx.1, Int.toNat_of_nonneg hy.1]

theorem nodup_pixelWrites (s : Screen) : (s.pixelWrites.map PixelWrite.point).Nodup := by
  unfold pixelWrites
  rw [List.map_flatMap, List.nodup_flatMap]
  refine ⟨fun y _ => ?_, ?_⟩
  · rw [List.map_map]
    refine List.Nodup.map ?_ List.nodup_range
    intro a b hab
    simp only [Function.comp_apply, PixelWrite.point, Prod.mk.injEq] at hab
    omega
  · -- Writes of different rows differ in the second coordinate.
    refine List.nodup_range.imp ?_
    intro a b hab p ha hb
    simp only [List.map_map, List.mem_map, Function.comp_apply, PixelWrite.point] at ha hb
    obtain ⟨_, _, rfl⟩ := ha
    obtain ⟨_, _, hb⟩ := hb
    simp only [Prod.mk.injEq, Int.natCast_inj] at hb
    exact hab hb.2.symm

section Drawing

variable {σ β : Type} {draw : σ → PixelWrite → σ} (look : σ → β) (colour : Bool → β) (I : σ → Prop)
  {x y : Int}

/-- Writes that agree on a colour of a point, one of which is about it, give it that colour. -/
theorem look_foldl {writes : List PixelWrite} {lit : Bool}
    (hkeep : ∀ a, ∀ w ∈ writes, I a → I (draw a w))
    (hdraw : ∀ a, ∀ w ∈ writes, I a →
      look (draw a w) = if w.x = x ∧ w.y = y then colour w.lit else look a)
    (hagree : ∀ w ∈ writes, w.x = x ∧ w.y = y → w.lit = lit) {a : σ} (ha : I a)
    (hsome : look a = colour lit ∨ ∃ w ∈ writes, w.x = x ∧ w.y = y) :
    look (writes.foldl draw a) = colour lit := by
  induction writes generalizing a with
  | nil =>
    rcases hsome with hlook | ⟨w, hw, _⟩
    · exact hlook
    · cases hw
  | cons w rest ih =>
    have hw := List.mem_cons_self (a := w) (l := rest)
    have hrest {w'} (hw' : w' ∈ rest) := List.mem_cons_of_mem w hw'
    refine ih (fun a w' hw' => hkeep a w' (hrest hw')) (fun a w' hw' => hdraw a w' (hrest hw'))
      (fun w' hw' => hagree w' (hrest hw')) (hkeep a w hw ha) ?_
    rw [hdraw a w hw ha]
    by_cases hpoint : w.x = x ∧ w.y = y
    · left
      rw [if_pos hpoint, hagree w hw hpoint]
    · rw [if_neg hpoint]
      rcases hsome with hlook | ⟨w', hw', hpoint'⟩
      · exact Or.inl hlook
      · rcases List.mem_cons.mp hw' with rfl | hw'
        · exact absurd hpoint' hpoint
        · exact Or.inr ⟨w', hw', hpoint'⟩

/-- Whatever the pixels are written to shows, at a point of the rectangle, the colour that the
screen has there, if a write changes what is seen of its own point and of no other. -/
theorem look_foldl_pixelWrites {s : Screen} (hkeep : ∀ a, ∀ w ∈ s.pixelWrites, I a → I (draw a w))
    (hdraw : ∀ a, ∀ w ∈ s.pixelWrites, I a →
      look (draw a w) = if w.x = x ∧ w.y = y then colour w.lit else look a)
    (hx : 0 ≤ x ∧ x < s.width) (hy : 0 ≤ y ∧ y < s.height) {a : σ} (ha : I a) :
    look (s.pixelWrites.foldl draw a) = colour (s.lit x y) := by
  apply look_foldl look colour I hkeep hdraw _ ha
  · exact Or.inr ⟨⟨x, y, s.lit x y⟩, mem_pixelWrites.mpr ⟨hx, hy, rfl⟩, rfl, rfl⟩
  · rintro w hw ⟨rfl, rfl⟩
    exact (mem_pixelWrites.mp hw).2.2

end Drawing

theorem lit_blank (width height x y : Int) : (blank width height).lit x y = false := by
  unfold lit blank
  rw [Array.getD_eq_getD_getElem?, Array.getElem?_replicate]
  split <;> rfl

end Chip8.Screen
