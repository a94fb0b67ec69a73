import Chip8.Screen

/-! # Drawing keeps the shape of the screen

However often points are switched over, a screen keeps its width and height, and with them the
number of its pixels. A screen that has pixels takes every point and every sprite. -/

namespace Chip8.Screen

/-- Two screens of the same shape. -/
def SameShape (s t : Screen) : Prop := t.width = s.width ∧ t.height = s.height

theorem toggleAll_sameShape (s : Screen) (points : List (Int × Int)) :
    s.SameShape (s.toggleAll points).2 := by
  induction points generalizing s with
  | nil => exact ⟨rfl, rfl⟩
  | cons p rest ih => exact ih (s.toggle p.1 p.2)

theorem drawSprite_sameShape {s t : Screen} {x y : Int} {rows : List UInt8} {collided : Bool}
    (h : s.drawSprite x y rows = .ok (collided, t)) : s.SameShape t := by
  unfold drawSprite at h
  split at h
  · cases h
    exact ⟨rfl, rfl⟩
  · split at h
    · cases h
    · have ht : (s.toggleAll (spritePoints x y rows)).2 = t :=
        congrArg Prod.snd (Except.ok.inj h)
      exact ht ▸ toggleAll_sameShape s (spritePoints x y rows)

/-- A fault in drawing is a fault of the screen itself. -/
theorem fault_of_drawSprite {s : Screen} {x y : Int} {rows : List UInt8} {f : Fault}
    (h : s.drawSprite x y rows = .error f) : s.fault? = some f := by
  unfold drawSprite at h
  split at h
  · cases h
  · split at h
    · cases h
      assumption
    · cases h

theorem SameShape.same_place {s t : Screen} (h : s.SameShape t) (x y : Int) :
    t.place x y = s.place x y := by
  have hsize : t.pixels.size = s.pixels.size := by rw [t.pixels_size, s.pixels_size, h.1, h.2]
  unfold place
  rw [h.1, h.2, hsize]

theorem fault?_eq_none {s : Screen} (hw : 0 < s.width) (hh : 0 < s.height) : s.fault? = none := by
  have hsize : s.pixels.size ≠ 0 := by
    rw [s.pixels_size]
    have := Int.mul_pos hw hh
    omega
  unfold fault?
  rw [if_neg (by omega), if_neg hsize]

theorem getPixel_of_pixels {s : Screen} (hw : 0 < s.width) (hh : 0 < s.height) (x y : Int) :
    s.getPixel x y = .ok (s.lit x y) := by
  unfold getPixel
  rw [fault?_eq_none hw hh]

theorem xorPixel_of_pixels {s : Screen} (hw : 0 < s.width) (hh : 0 < s.height) (x y : Int) :
    s.xorPixel x y = .ok (s.lit x y, s.toggle x y) := by
  unfold xorPixel
  rw [fault?_eq_none hw hh]

theorem drawSprite_of_pixels {s : Screen} (hw : 0 < s.width) (hh : 0 < s.height) (x y : Int)
    (rows : List UInt8) : s.drawSprite x y rows = .ok (s.toggleAll (spritePoints x y rows)) := by
  unfold drawSprite
  rw [fault?_eq_none hw hh]
  split
  · rename_i hpoints
    rw [hpoints]
    rfl
  · rfl

end Chip8.Screen
