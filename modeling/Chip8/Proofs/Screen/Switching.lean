import Mathlib.Data.List.Flatten
import Mathlib.Data.List.Perm.Basic
import Chip8.Proofs.Screen.Place

/-! # Points switched over in any order

To switch two points over in one order or the other makes the same picture, and to switch a point
over twice leaves the picture alone. So a list of points does the same to a screen in any order, and
nothing at all if it is gone through twice. -/

namespace Chip8.Screen

variable {s t : Screen}

theorem eq_of_pixels (hwidth : s.width = t.width) (hheight : s.height = t.height)
    (hpixels : s.pixels = t.pixels) (hredraw : s.redraw = t.redraw) : s = t := by
  cases s
  cases t
  subst hwidth hheight hpixels hredraw
  rfl

theorem lit_congr {x y x' y' : Int} (h : s.place x y = s.place x' y') :
    s.lit x y = s.lit x' y' := by
  unfold lit
  rw [h]

theorem toggle_congr {x y x' y' : Int} (h : s.place x y = s.place x' y') :
    s.toggle x y = s.toggle x' y' := by
  refine eq_of_pixels rfl rfl ?_ rfl
  change s.pixels.setIfInBounds _ _ = s.pixels.setIfInBounds _ _
  rw [h, lit_congr h]

/-- A point with another place keeps its colour. -/
theorem lit_toggle_of_ne {x y x' y' : Int} (h : s.place x y ≠ s.place x' y') :
    (s.toggle x y).lit x' y' = s.lit x' y' := by
  have hplace : (s.toggle x y).place x' y' = s.place x' y' := by rw [place_toggle]
  unfold lit
  rw [hplace]
  change (s.pixels.setIfInBounds _ _).getD _ _ = _
  rw [Array.getD_eq_getD_getElem?, Array.getElem?_setIfInBounds_ne h, Array.getD_eq_getD_getElem?]

theorem toggle_comm (s : Screen) (x y x' y' : Int) :
    (s.toggle x y).toggle x' y' = (s.toggle x' y').toggle x y := by
  by_cases h : s.place x y = s.place x' y'
  · have h' : (s.toggle x' y').place x' y' = (s.toggle x' y').place x y := by
      rw [place_toggle, h]
    rw [toggle_congr h, toggle_congr h']
  · refine eq_of_pixels rfl rfl ?_ rfl
    change (s.pixels.setIfInBounds _ _).setIfInBounds _ _ =
      (s.pixels.setIfInBounds _ _).setIfInBounds _ _
    rw [lit_toggle_of_ne h, lit_toggle_of_ne (Ne.symm h), place_toggle, place_toggle,
      Array.setIfInBounds_comm _ _ h]

theorem toggle_toggle (s : Screen) (x y : Int) : (s.toggle x y).toggle x y = s := by
  refine eq_of_pixels rfl rfl ?_ rfl
  change (s.pixels.setIfInBounds (s.place x y) _).setIfInBounds _ _ = s.pixels
  rw [place_toggle, Array.setIfInBounds_setIfInBounds]
  by_cases hlt : s.place x y < s.pixels.size
  · have hlit : (!(s.toggle x y).lit x y) = s.pixels[s.place x y] := by
      rw [lit_toggle s x y hlt, if_pos rfl, Bool.not_not, lit, Array.getD_eq_getD_getElem?,
        Array.getElem?_eq_getElem hlt, Option.getD_some]
    rw [hlit, Array.setIfInBounds_def, dif_pos hlt, Array.set_getElem_self]
  · exact Array.setIfInBounds_eq_of_size_le (Nat.le_of_not_lt hlt)

/-- The screen with these points switched over, one after the other. -/
def switched (s : Screen) (points : List (Int × Int)) : Screen :=
  points.foldl (fun t p => t.toggle p.1 p.2) s

theorem toggleAll_switched (s : Screen) (points : List (Int × Int)) :
    (s.toggleAll points).2 = s.switched points := by
  induction points generalizing s with
  | nil => rfl
  | cons p rest ih => exact ih (s.toggle p.1 p.2)

theorem switched_append (s : Screen) (points points' : List (Int × Int)) :
    s.switched (points ++ points') = (s.switched points).switched points' :=
  List.foldl_append

theorem switched_perm {points points' : List (Int × Int)} (h : points.Perm points') :
    s.switched points = s.switched points' :=
  h.foldl_eq' (fun p _ q _ t => toggle_comm t p.1 p.2 q.1 q.2) s

theorem switched_twice (s : Screen) (points : List (Int × Int)) :
    s.switched (points ++ points) = s := by
  induction points generalizing s with
  | nil => rfl
  | cons p rest ih =>
    have hperm : (p :: rest ++ p :: rest).Perm (p :: p :: (rest ++ rest)) :=
      List.Perm.cons p List.perm_middle
    calc s.switched (p :: rest ++ p :: rest)
        = s.switched (p :: p :: (rest ++ rest)) := switched_perm hperm
      _ = ((s.toggle p.1 p.2).toggle p.1 p.2).switched (rest ++ rest) := rfl
      _ = s := by rw [toggle_toggle, ih]

/-- The flag has no say in which points are lit. -/
theorem switched_markRedraw (s : Screen) (points : List (Int × Int)) :
    s.markRedraw.switched points = { s.switched points with redraw := true } := by
  induction points generalizing s with
  | nil => rfl
  | cons p rest ih => exact ih (s.toggle p.1 p.2)

end Chip8.Screen
