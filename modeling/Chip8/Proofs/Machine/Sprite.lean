import Chip8.Proofs.Machine.Effect
import Chip8.Proofs.Screen.Place

/-! # Drawing a sprite

A sprite that is no larger than the screen never meets itself, however it wraps around. So each of
its set bits switches one point over, no other bit switches that point back, and the flag tells
whether one of these points was lit before. -/

namespace Chip8

namespace Screen

variable {s : Screen} {x y : Int} {rows : List UInt8}

theorem mem_spritePoints {p : Int × Int} :
    p ∈ spritePoints x y rows ↔
      ∃ r < rows.length, ∃ c < spriteWidth, rowBit (rows.getD r 0) c = true ∧
        p = (x + (c : Nat), y + (r : Nat)) := by
  induction rows generalizing y with
  | nil => simp [spritePoints]
  | cons row rest ih =>
    simp only [spritePoints, List.mem_append, List.mem_map, List.mem_filter, List.mem_range, ih]
    constructor
    · rintro (⟨c, ⟨hc, hbit⟩, rfl⟩ | ⟨r, hr, c, hc, hbit, rfl⟩)
      · exact ⟨0, Nat.succ_pos _, c, hc, hbit, by simp⟩
      · refine ⟨r + 1, Nat.succ_lt_succ hr, c, hc, hbit, ?_⟩
        rw [Prod.mk.injEq]
        exact ⟨rfl, by omega⟩
    · rintro ⟨r, hr, c, hc, hbit, rfl⟩
      cases r with
      | zero => exact Or.inl ⟨c, ⟨hc, hbit⟩, by simp⟩
      | succ r =>
        refine Or.inr ⟨r, Nat.lt_of_succ_lt_succ hr, c, hc, hbit, ?_⟩
        rw [Prod.mk.injEq]
        exact ⟨rfl, by omega⟩

/-- Two steps from one point, both shorter than the way around, end apart. -/
theorem eq_of_add_emod_eq {start around : Int} {a b : Nat} (ha : a < around) (hb : b < around)
    (h : (start + a) % around = (start + b) % around) : a = b := by
  rw [Int.emod_add_cancel_left, Int.emod_eq_of_lt (by omega) ha,
    Int.emod_eq_of_lt (by omega) hb] at h
  omega

/-- Within a sprite that fits, different columns or rows wrap around to different points. -/
theorem place_offset_inj {a b c d : Nat} (ha : a < s.width) (hb : b < s.width)
    (hc : c < s.height) (hd : d < s.height)
    (h : s.place (x + a) (y + c) = s.place (x + b) (y + d)) : a = b ∧ c = d := by
  obtain ⟨hcolumn, hrow⟩ := (place_eq_place_iff (by omega) (by omega)).mp h
  exact ⟨eq_of_add_emod_eq ha hb hcolumn, eq_of_add_emod_eq hc hd hrow⟩

theorem apart_spritePoints (hw : spriteWidth ≤ s.width) (hh : rows.length ≤ s.height) :
    s.Apart (spritePoints x y rows) := by
  induction rows generalizing y with
  | nil => exact List.Pairwise.nil
  | cons row rest ih =>
    rw [List.length_cons] at hh
    have hfirst : y + ((0 : Nat) : Int) = y := Int.add_zero y
    refine List.pairwise_append.mpr ⟨?_, ih (by omega), ?_⟩
    · -- Two bits of the first row differ in their column.
      rw [List.pairwise_map]
      refine (List.nodup_range.filter _).imp_of_mem ?_
      intro a b ha hb hab heq
      simp only [List.mem_filter, List.mem_range] at ha hb
      rw [← hfirst] at heq
      exact hab (place_offset_inj (by omega) (by omega) (by omega) (by omega) heq).1
    · -- A bit of the first row and one of another row differ in their row.
      intro p hp q hq heq
      obtain ⟨a, ha, rfl⟩ := List.mem_map.mp hp
      obtain ⟨r, hr, b, hb, _, rfl⟩ := mem_spritePoints.mp hq
      simp only [List.mem_filter, List.mem_range] at ha
      have hother : y + ((r + 1 : Nat) : Int) = y + 1 + r := by omega
      have heq' : s.place (x + a) (y + (0 : Nat)) = s.place (x + b) (y + (r + 1 : Nat)) := by
        rw [hfirst, hother]
        exact heq
      cases (place_offset_inj (by omega) (by omega) (by omega) (by omega) heq').2

/-- A screen that is large enough takes the sprite, and every bit falls on a pixel. -/
theorem drawSprite_eq (hw : spriteWidth ≤ s.width) (hh : rows.length ≤ s.height) :
    s.drawSprite x y rows = .ok (s.toggleAll (spritePoints x y rows)) ∧
      ∀ p ∈ spritePoints x y rows, 0 < s.width ∧ 0 < s.height := by
  have hwidth : 0 < s.width := by unfold spriteWidth at hw; omega
  cases rows with
  | nil => exact ⟨rfl, by simp [spritePoints]⟩
  | cons row rest =>
    rw [List.length_cons] at hh
    have hheight : 0 < s.height := by omega
    exact ⟨drawSprite_of_pixels hwidth hheight x y (row :: rest), fun _ _ => ⟨hwidth, hheight⟩⟩

end Screen

namespace Machine

variable {m m' : Machine}

/-- A set bit of the sprite of `n` rows at the index falls on the point. -/
def SpriteCovers (m : Machine) (x y : Int) (n : Nat) (px py : Int) : Prop :=
  ∃ r < n, ∃ c < 8, (m.memory.byteAt (m.i.toNat + r)).toNat.testBit (7 - c) = true ∧
    ((m.reg x).toNat + (c : Int)) % m.screen.width = px ∧
    ((m.reg y).toNat + (r : Int)) % m.screen.height = py

/-- The points that an instruction switches over, in their order. -/
def drawnPoints (m : Machine) (x y : Int) (n : Nat) : List (Int × Int) :=
  Screen.spritePoints (m.reg x).toNat (m.reg y).toNat (m.memory.blockAt m.i n)

/-- The screen with these points switched over, and whether one of them was lit. -/
def drawn (m : Machine) (x y : Int) (n : Nat) : Bool × Screen :=
  m.screen.toggleAll (m.drawnPoints x y n)

theorem among_drawnPoints {x y : Int} {n : Nat} {px py : Int} (hin : m.screen.Inside px py) :
    m.screen.Among (m.drawnPoints x y n) px py ↔ m.SpriteCovers x y n px py := by
  have hw : 0 < m.screen.width := by have := hin.1; omega
  have hh : 0 < m.screen.height := by have := hin.2; omega
  have hrow : ∀ r < n, (m.memory.blockAt m.i n).getD r 0 = m.memory.byteAt (m.i.toNat + r) := by
    intro r hr
    simp [Memory.blockAt, hr]
  unfold Screen.Among SpriteCovers drawnPoints
  constructor
  · rintro ⟨p, hp, hplace⟩
    obtain ⟨r, hr, c, hc, hbit, rfl⟩ := Screen.mem_spritePoints.mp hp
    rw [Memory.length_blockAt] at hr
    rw [hrow r hr] at hbit
    rw [Screen.place_eq_place_iff hw hh, Screen.samePoint_iff_of_inside hin] at hplace
    exact ⟨r, hr, c, hc, hbit, hplace⟩
  · rintro ⟨r, hr, c, hc, hbit, hplace⟩
    refine ⟨((m.reg x).toNat + (c : Int), (m.reg y).toNat + (r : Int)), ?_, ?_⟩
    · rw [← hrow r hr] at hbit
      exact Screen.mem_spritePoints.mpr
        ⟨r, by rw [Memory.length_blockAt]; exact hr, c, hc, hbit, rfl⟩
    · rwa [Screen.place_eq_place_iff hw hh, Screen.samePoint_iff_of_inside hin]

theorem length_rows {n : Nat} (hh : n ≤ m.screen.height) :
    ((m.memory.blockAt m.i n).length : Int) ≤ m.screen.height := by
  rwa [Memory.length_blockAt]

section Drawing

variable {n : Nat} (x y : Int) (hw : 8 ≤ m.screen.width) (hh : n ≤ m.screen.height)

include hw hh

theorem pixels_of_drawn : ∀ p ∈ m.drawnPoints x y n, 0 < m.screen.width ∧ 0 < m.screen.height :=
  (Screen.drawSprite_eq hw (length_rows hh)).2

theorem drawn_eq :
    (m.drawn x y n).1 = (m.drawnPoints x y n).any (fun p => m.screen.lit p.1 p.2) ∧
      ∀ px py, (m.drawn x y n).2.lit px py =
        if m.screen.Among (m.drawnPoints x y n) px py then !m.screen.lit px py
        else m.screen.lit px py := by
  apply Screen.toggleAll_eq
  · intro p hp
    obtain ⟨hwidth, hheight⟩ := pixels_of_drawn x y hw hh p hp
    exact Screen.place_lt hwidth hheight p.1 p.2
  · exact Screen.apart_spritePoints hw (length_rows hh)

theorem lit_drawn {px py : Int} (hin : m.screen.Inside px py) :
    (m.drawn x y n).2.lit px py ≠ m.screen.lit px py ↔ m.SpriteCovers x y n px py := by
  rw [(drawn_eq x y hw hh).2, ← among_drawnPoints hin]
  split
  · rename_i hamong
    simp [hamong]
  · rename_i hout
    simp [hout]

theorem collided_drawn :
    (m.drawn x y n).1 = true ↔ ∃ px py, m.screen.Inside px py ∧
      (m.drawn x y n).2.lit px py ≠ m.screen.lit px py ∧ m.screen.lit px py = true := by
  rw [(drawn_eq x y hw hh).1, List.any_eq_true]
  constructor
  · rintro ⟨p, hp, hlit⟩
    -- The point of the sprite may lie outside the rectangle; it is the one that it wraps around to.
    obtain ⟨hwidth, hheight⟩ := pixels_of_drawn x y hw hh p hp
    have hin := Screen.inside_emod hwidth hheight p.1 p.2
    have hplace : m.screen.place p.1 p.2 =
        m.screen.place (p.1 % m.screen.width) (p.2 % m.screen.height) :=
      (Screen.place_eq_place_iff hwidth hheight).mpr
        ((Screen.samePoint_iff_of_inside hin).mpr ⟨rfl, rfl⟩)
    refine ⟨_, _, hin, ?_, ?_⟩
    · rw [lit_drawn x y hw hh hin, ← among_drawnPoints hin]
      exact ⟨p, hp, hplace⟩
    · rw [Screen.lit, ← hplace]
      exact hlit
  · rintro ⟨px, py, hin, hchanged, hlit⟩
    rw [lit_drawn x y hw hh hin, ← among_drawnPoints hin] at hchanged
    obtain ⟨p, hp, hplace⟩ := hchanged
    refine ⟨p, hp, ?_⟩
    rw [Screen.lit, hplace]
    exact hlit

theorem execute_draw (hi : 0 ≤ m.i) (hroom : n = 0 ∨ m.i + n ≤ m.memory.size) :
    m.execute (.draw x y n) =
      done ({ m with screen := (m.drawn x y n).2.markRedraw }.setFlag (m.drawn x y n).1).next := by
  have hread : m.memory.readBlock m.i n = .ok (m.memory.blockAt m.i n) :=
    Memory.readBlock_of_fits (hroom.imp_right fun h => ⟨hi, h⟩)
  have hdraw := (Screen.drawSprite_eq (x := (m.reg x).toNat) (y := (m.reg y).toNat) hw
    (length_rows hh)).1
  simp only [execute, drawSprite, hread, hdraw]
  rfl

end Drawing

/-- A pixel that was lit has been switched off. -/
def Erased (m m' : Machine) : Prop :=
  ∃ px py, m.screen.Inside px py ∧ m'.screen.lit px py ≠ m.screen.lit px py ∧
    m.screen.lit px py = true

/-- A sprite of `n` rows that is in memory and fits the screen switches over the points that its set
bits fall on, and no others. The flag register tells whether one of them was lit, and the picture
is to be shown again in any case. -/
theorem draw_exact {n : Nat} (x y : Int) (hw : 8 ≤ m.screen.width) (hh : n ≤ m.screen.height)
    (hi : 0 ≤ m.i) (hroom : n = 0 ∨ m.i + n ≤ m.memory.size) :
    ∃ m', m.execute (.draw x y n) = done m' ∧ m'.screen.redraw = true ∧
      m.screen.SameShape m'.screen ∧
      (∀ px py, m.screen.Inside px py →
        (m'.screen.lit px py ≠ m.screen.lit px py ↔ m.SpriteCovers x y n px py)) ∧
      ((m'.reg flagRegister = 1 ∧ Erased m m') ∨ (m'.reg flagRegister = 0 ∧ ¬ Erased m m')) := by
  refine ⟨_, execute_draw x y hw hh hi hroom, rfl, ?_, fun px py => lit_drawn x y hw hh, ?_⟩
  · exact Screen.toggleAll_sameShape m.screen (m.drawnPoints x y n)
  · have hflag : ∀ on, (({ m with screen := (m.drawn x y n).2.markRedraw }.setFlag on).next).reg
        flagRegister = if on then 1 else 0 :=
      fun on => (reg_setReg _ flagRegister flagRegister _).trans (if_pos rfl)
    rw [hflag]
    cases hcollided : (m.drawn x y n).1 with
    | true => exact Or.inl ⟨rfl, (collided_drawn x y hw hh).mp hcollided⟩
    | false =>
      refine Or.inr ⟨rfl, fun herased => ?_⟩
      rw [(collided_drawn x y hw hh).mpr herased] at hcollided
      cases hcollided

/-- Two pixels at the right edge of the lower row, of which one wraps around to a pixel that is lit.
`VF` holds both coordinates. -/
def wrapping : Machine :=
  (initial ⟨#[0xC0]⟩ (CallStack.ofSize 0) ((Screen.blank 8 2).toggle 0 1) false fun _ => 0).setReg
    flagRegister 7

theorem draw_exact_wrapping :
    8 ≤ wrapping.screen.width ∧ (1 : Nat) ≤ wrapping.screen.height ∧ 0 ≤ wrapping.i ∧
      wrapping.i + (1 : Nat) ≤ wrapping.memory.size ∧
      ∃ m', wrapping.execute (.draw flagRegister flagRegister (1 : Nat)) = done m' ∧
        m'.screen.lit 7 1 = true ∧ m'.screen.lit 0 1 = false ∧ m'.reg flagRegister = 1 := by
  have hw : 8 ≤ wrapping.screen.width := by decide
  have hh : (1 : Nat) ≤ wrapping.screen.height := by decide
  have hi : 0 ≤ wrapping.i := by decide
  have hroom : wrapping.i + (1 : Nat) ≤ wrapping.memory.size := by decide
  obtain ⟨m', hm', _, _, hpixels, hflag⟩ :=
    draw_exact (n := 1) flagRegister flagRegister hw hh hi (Or.inr hroom)
  have hright : m'.screen.lit 7 1 ≠ wrapping.screen.lit 7 1 :=
    (hpixels 7 1 ⟨by decide, by decide⟩).mpr
      ⟨0, by decide, 0, by decide, by decide, by decide, by decide⟩
  have hleft : m'.screen.lit 0 1 ≠ wrapping.screen.lit 0 1 :=
    (hpixels 0 1 ⟨by decide, by decide⟩).mpr
      ⟨0, by decide, 1, by decide, by decide, by decide, by decide⟩
  have hdark : wrapping.screen.lit 7 1 = false := by decide
  have hlit : wrapping.screen.lit 0 1 = true := by decide
  refine ⟨hw, hh, hi, hroom, m', hm', ?_, ?_, ?_⟩
  · rw [hdark] at hright
    exact eq_true_of_ne_false hright
  · rw [hlit] at hleft
    exact eq_false_of_ne_true hleft
  · rcases hflag with ⟨hset, _⟩ | ⟨_, hnone⟩
    · exact hset
    · exact absurd ⟨0, 1, ⟨by decide, by decide⟩, hleft, hlit⟩ hnone

end Machine

end Chip8
