import Chip8.Proofs.Screen.Writes

/-! # Where a pixel lies

On a screen with pixels, two points have the same place exactly if their coordinates wrap around to
the same ones. Points that are switched over one after the other therefore do not get in each
other's way as long as no two of them wrap around to one point: each of them finds the colour that
it had at the beginning, and the other points keep theirs. -/

namespace Chip8.Screen

variable {s : Screen} {x y x' y' : Int}

/-- The point lies in the rectangle, where no coordinate wraps around. -/
def Inside (s : Screen) (x y : Int) : Prop := (0 ≤ x ∧ x < s.width) ∧ (0 ≤ y ∧ y < s.height)

/-- Both points wrap around to the same one. -/
def SamePoint (s : Screen) (x y x' y' : Int) : Prop :=
  x % s.width = x' % s.width ∧ y % s.height = y' % s.height

theorem emod_of_inside (h : s.Inside x y) : x % s.width = x ∧ y % s.height = y :=
  ⟨Int.emod_eq_of_lt h.1.1 h.1.2, Int.emod_eq_of_lt h.2.1 h.2.2⟩

/-- Inside the rectangle only one point wraps around to a point. -/
theorem samePoint_iff_of_inside (h : s.Inside x' y') :
    s.SamePoint x y x' y' ↔ x % s.width = x' ∧ y % s.height = y' := by
  obtain ⟨hx, hy⟩ := emod_of_inside h
  unfold SamePoint
  rw [hx, hy]

section Pixels

variable (hw : 0 < s.width) (hh : 0 < s.height)

include hw hh

theorem inside_emod (x y : Int) : s.Inside (x % s.width) (y % s.height) :=
  ⟨⟨Int.emod_nonneg x (Int.ne_of_gt hw), Int.emod_lt_of_pos x hw⟩,
    ⟨Int.emod_nonneg y (Int.ne_of_gt hh), Int.emod_lt_of_pos y hh⟩⟩

theorem place_eq (x y : Int) :
    s.place x y = (y % s.height).toNat * s.width.toNat + (x % s.width).toNat := by
  have hin := inside_emod hw hh x y
  have hwidth := Int.le_of_lt hw
  have hheight := Int.le_of_lt hh
  have hwrap : s.place x y = s.place (x % s.width) (y % s.height) := by
    unfold place
    rw [Int.fmod_eq_emod_of_nonneg _ hwidth, Int.fmod_eq_emod_of_nonneg _ hheight,
      Int.fmod_eq_emod_of_nonneg _ hwidth, Int.fmod_eq_emod_of_nonneg _ hheight, Int.emod_emod,
      Int.emod_emod]
  rw [hwrap, place_of_inside hin.1 hin.2]

theorem place_lt (x y : Int) : s.place x y < s.pixels.size := by
  obtain ⟨⟨hx, hx'⟩, hy, hy'⟩ := inside_emod hw hh x y
  have hcolumn : (x % s.width).toNat < s.width.toNat := by omega
  have hrow : (y % s.height).toNat + 1 ≤ s.height.toNat := by omega
  have hrows := Nat.mul_le_mul_right s.width.toNat hrow
  rw [Nat.add_mul, Nat.one_mul] at hrows
  rw [place_eq hw hh, s.pixels_size, Int.toNat_mul (Int.le_of_lt hw) (Int.le_of_lt hh),
    Nat.mul_comm s.width.toNat]
  omega

theorem place_eq_place_iff : s.place x y = s.place x' y' ↔ s.SamePoint x y x' y' := by
  obtain ⟨⟨hx, hxw⟩, hy, _⟩ := inside_emod hw hh x y
  obtain ⟨⟨hx', hxw'⟩, hy', _⟩ := inside_emod hw hh x' y'
  rw [place_eq hw hh, place_eq hw hh]
  constructor
  · intro h
    have hlt : (x % s.width).toNat < s.width.toNat := by omega
    have hlt' : (x' % s.width).toNat < s.width.toNat := by omega
    have hcolumn : (x % s.width).toNat = (x' % s.width).toNat := by
      calc (x % s.width).toNat
          = ((y % s.height).toNat * s.width.toNat + (x % s.width).toNat) % s.width.toNat :=
            (Nat.mul_add_mod_of_lt hlt).symm
        _ = ((y' % s.height).toNat * s.width.toNat + (x' % s.width).toNat) % s.width.toNat := by
            rw [h]
        _ = (x' % s.width).toNat := Nat.mul_add_mod_of_lt hlt'
    have hrow : (y % s.height).toNat = (y' % s.height).toNat := by
      rw [hcolumn] at h
      exact Nat.eq_of_mul_eq_mul_right (by omega) (Nat.add_right_cancel h)
    exact ⟨by omega, by omega⟩
  · rintro ⟨hcolumn, hrow⟩
    rw [hcolumn, hrow]

end Pixels

/-- Points of the rectangle have places of their own. -/
theorem place_eq_iff_of_inside (h : s.Inside x y) (h' : s.Inside x' y') :
    s.place x y = s.place x' y' ↔ x = x' ∧ y = y' := by
  have hw : 0 < s.width := Int.lt_of_le_of_lt h.1.1 h.1.2
  have hh : 0 < s.height := Int.lt_of_le_of_lt h.2.1 h.2.2
  obtain ⟨hx, hy⟩ := emod_of_inside h
  rw [place_eq_place_iff hw hh, samePoint_iff_of_inside h', hx, hy]

/-! ## Switching points over -/

theorem place_toggle (s : Screen) (x y : Int) : (s.toggle x y).place = s.place := by
  funext a b
  simp [place, toggle]

theorem lit_toggle (s : Screen) (x y : Int) (hlt : s.place x y < s.pixels.size) (x' y' : Int) :
    (s.toggle x y).lit x' y' =
      if s.place x y = s.place x' y' then !s.lit x' y' else s.lit x' y' := by
  have hpixels : (s.toggle x y).pixels = s.pixels.setIfInBounds (s.place x y) (!s.lit x y) := rfl
  have hplace : (s.toggle x y).lit x' y' = (s.toggle x y).pixels.getD (s.place x' y') false := by
    rw [← place_toggle s x y]
    rfl
  rw [hplace, hpixels, Array.getD_eq_getD_getElem?, Array.getElem?_setIfInBounds]
  by_cases heq : s.place x y = s.place x' y'
  · rw [if_pos heq, if_pos heq, if_pos hlt, lit, lit, heq]
    rfl
  · rw [if_neg heq, if_neg heq, lit, Array.getD_eq_getD_getElem?]

/-- The point is one of these, or wraps around to one of them. -/
def Among (s : Screen) (points : List (Int × Int)) (x y : Int) : Prop :=
  ∃ p ∈ points, s.place p.1 p.2 = s.place x y

instance (s : Screen) (points : List (Int × Int)) (x y : Int) : Decidable (s.Among points x y) :=
  inferInstanceAs (Decidable (∃ p ∈ points, _))

/-- No two of these points wrap around to one. -/
def Apart (s : Screen) (points : List (Int × Int)) : Prop :=
  points.Pairwise fun p q => s.place p.1 p.2 ≠ s.place q.1 q.2

/-- Points that are apart are switched over independently of each other. -/
theorem toggleAll_eq {points : List (Int × Int)}
    (hplace : ∀ p ∈ points, s.place p.1 p.2 < s.pixels.size) (hapart : s.Apart points) :
    (s.toggleAll points).1 = points.any (fun p => s.lit p.1 p.2) ∧
      ∀ x y, (s.toggleAll points).2.lit x y =
        if s.Among points x y then !s.lit x y else s.lit x y := by
  induction points generalizing s with
  | nil => exact ⟨rfl, fun x y => (if_neg (by simp [Among])).symm⟩
  | cons p rest ih =>
    obtain ⟨hfirst, hrest⟩ := List.pairwise_cons.mp hapart
    have hplaces := place_toggle s p.1 p.2
    have hsize : (s.toggle p.1 p.2).pixels.size = s.pixels.size := Array.size_setIfInBounds
    have hplace' : ∀ q ∈ rest,
        (s.toggle p.1 p.2).place q.1 q.2 < (s.toggle p.1 p.2).pixels.size := by
      intro q hq
      rw [hplaces, hsize]
      exact hplace q (List.mem_cons_of_mem p hq)
    have hapart' : (s.toggle p.1 p.2).Apart rest := by
      unfold Apart
      rwa [hplaces]
    obtain ⟨hany, hothers⟩ := ih hplace' hapart'
    have hlit := lit_toggle s p.1 p.2 (hplace p List.mem_cons_self)
    constructor
    · have hsame : rest.any (fun q => (s.toggle p.1 p.2).lit q.1 q.2) =
          rest.any (fun q => s.lit q.1 q.2) := by
        rw [Bool.eq_iff_iff, List.any_eq_true, List.any_eq_true]
        refine exists_congr fun q => and_congr_right fun hq => ?_
        rw [hlit, if_neg (hfirst q hq)]
      rw [List.any_cons, ← hsame, ← hany]
      rfl
    · intro x y
      have hdrawn : (s.toggleAll (p :: rest)).2 = ((s.toggle p.1 p.2).toggleAll rest).2 := rfl
      rw [hdrawn, hothers, hlit]
      have hamong : (s.toggle p.1 p.2).Among rest x y ↔ s.Among rest x y := by
        unfold Among
        rw [hplaces]
      by_cases hp : s.place p.1 p.2 = s.place x y
      · -- The point has been switched over, and none of the others comes back to it.
        have hno : ¬ s.Among rest x y := by
          rintro ⟨q, hq, hqp⟩
          exact hfirst q hq (hp.trans hqp.symm)
        rw [if_neg (hamong.not.mpr hno), if_pos hp, if_pos ⟨p, List.mem_cons_self, hp⟩]
      · rw [if_neg hp]
        by_cases hq : s.Among rest x y
        · obtain ⟨q, hmem, hqp⟩ := hq
          rw [if_pos (hamong.mpr ⟨q, hmem, hqp⟩), if_pos ⟨q, List.mem_cons_of_mem p hmem, hqp⟩]
        · have hno : ¬ s.Among (p :: rest) x y := by
            rintro ⟨q, hmem, hqp⟩
            rcases List.mem_cons.mp hmem with rfl | hmem
            · exact hp hqp
            · exact hq ⟨q, hmem, hqp⟩
          rw [if_neg (hamong.not.mpr hq), if_neg hno]

end Chip8.Screen
