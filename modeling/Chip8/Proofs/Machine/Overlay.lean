import Chip8.Proofs.Machine.Sprite
import Chip8.Proofs.Screen.Switching

/-! # Sprites drawn over each other

A sprite switches over the points that its set bits fall on, whatever is on the screen, and a small
screen it covers more than once. So a list of sprites makes the same picture in any order, and a
sprite that is drawn a second time takes itself away. An instruction that is executed twice then
reports a collision exactly if it lit a pixel the first time. -/

namespace Chip8

/-- One call to draw: where the upper left corner goes, and where in a memory the rows are. -/
structure SpriteCall where
  x : Int
  y : Int
  memory : Memory
  index : Int
  height : Int

namespace SpriteCall

variable {s t : Screen} {c d : SpriteCall} {calls calls' : List SpriteCall}

/-- The rows of the sprite, none if memory has no such rows. -/
def rows? (c : SpriteCall) : Option (List UInt8) :=
  (c.memory.readBlock c.index c.height).toOption

/-- The screen after a call, none if it fails. -/
def draw? (c : SpriteCall) (s : Screen) : Option Screen :=
  c.rows?.bind fun rows =>
    (s.drawSprite c.x c.y rows).toOption.map fun (_, drawn) => drawn.markRedraw

/-- The screen after one call for each in a list, none if one of them fails. -/
def drawAll? (s : Screen) : List SpriteCall → Option Screen
  | [] => some s
  | c :: rest => (c.draw? s).bind fun t => drawAll? t rest

/-- The same rows at the same position, wherever in memory they are. -/
def Same (c d : SpriteCall) : Prop := c.x = d.x ∧ c.y = d.y ∧ c.rows? = d.rows?

/-- The points that a call switches over. -/
def points (c : SpriteCall) : List (Int × Int) := Screen.spritePoints c.x c.y (c.rows?.getD [])

theorem Same.points_eq (h : c.Same d) : c.points = d.points := by
  unfold points
  rw [h.1, h.2.1, h.2.2]

theorem draw?_eq_some_iff (hw : 0 < s.width) (hh : 0 < s.height) :
    c.draw? s = some t ↔ c.rows?.isSome ∧ t = (s.switched c.points).markRedraw := by
  unfold draw? points
  cases c.rows? with
  | none => simp
  | some rows =>
    rw [Option.bind_some, Screen.drawSprite_of_pixels hw hh, ← Screen.toggleAll_switched,
      Option.getD_some]
    exact ⟨fun h => ⟨rfl, (Option.some.inj h).symm⟩, fun h => congrArg some h.2.symm⟩

/-- Calls succeed together exactly if all rows can be read, and the order in which their points are
switched over is the order of the calls. -/
theorem drawAll?_cases (hw : 0 < s.width) (hh : 0 < s.height) (calls : List SpriteCall) :
    (drawAll? s calls = none ∧ ∃ c ∈ calls, c.rows?.isSome = false) ∨
      ((∀ c ∈ calls, c.rows?.isSome) ∧
        ∃ t, drawAll? s calls = some t ∧
          t.pixels = (s.switched (calls.flatMap points)).pixels) := by
  induction calls generalizing s with
  | nil => exact Or.inr ⟨nofun, s, rfl, rfl⟩
  | cons c rest ih =>
    cases hc : c.rows?.isSome with
    | false =>
      refine Or.inl ⟨?_, c, List.mem_cons_self, hc⟩
      rw [Option.isSome_eq_false_iff, Option.isNone_iff_eq_none] at hc
      simp only [drawAll?, draw?, hc, Option.bind_none]
    | true =>
      generalize hfirst : (s.switched c.points).markRedraw = first
      have hdraw : c.draw? s = some first := (draw?_eq_some_iff hw hh).mpr ⟨hc, hfirst.symm⟩
      have hrest : drawAll? s (c :: rest) = drawAll? first rest := by
        rw [drawAll?, hdraw, Option.bind_some]
      have hshape : s.SameShape first := by
        rw [← hfirst, ← Screen.toggleAll_switched]
        exact Screen.toggleAll_sameShape s c.points
      rw [hrest]
      rcases ih (hshape.1 ▸ hw) (hshape.2 ▸ hh) with ⟨hnone, b, hb, hrows⟩ |
        ⟨hall, t, ht, hpixels⟩
      · exact Or.inl ⟨hnone, b, List.mem_cons_of_mem c hb, hrows⟩
      · refine Or.inr ⟨List.forall_mem_cons.mpr ⟨hc, hall⟩, t, ht, ?_⟩
        rw [hpixels, ← hfirst, Screen.switched_markRedraw, List.flatMap_cons,
          Screen.switched_append]

theorem rows_of_drawAll? (hw : 0 < s.width) (hh : 0 < s.height) (h : drawAll? s calls = some t) :
    (∀ c ∈ calls, c.rows?.isSome) ∧ t.pixels = (s.switched (calls.flatMap points)).pixels := by
  rcases drawAll?_cases hw hh calls with ⟨hnone, _⟩ | ⟨hall, t', ht', hpixels⟩
  · rw [h] at hnone
    cases hnone
  · rw [h] at ht'
    cases ht'
    exact ⟨hall, hpixels⟩

theorem drawAll?_of_rows (hw : 0 < s.width) (hh : 0 < s.height)
    (h : ∀ c ∈ calls, c.rows?.isSome) :
    ∃ t, drawAll? s calls = some t ∧ t.pixels = (s.switched (calls.flatMap points)).pixels := by
  rcases drawAll?_cases hw hh calls with ⟨_, c, hc, hrows⟩ | ⟨_, hdrawn⟩
  · rw [h c hc] at hrows
    cases hrows
  · exact hdrawn

/-- Calls that can be read as well, and switch over the same points, make the same picture. -/
theorem drawAll?_of_switched_eq (hw : 0 < s.width) (hh : 0 < s.height)
    (h : drawAll? s calls = some t) (hmem : ∀ c ∈ calls', c ∈ calls)
    (heq : s.switched (calls'.flatMap points) = s.switched (calls.flatMap points)) :
    ∃ t', drawAll? s calls' = some t' ∧ t'.pixels = t.pixels := by
  obtain ⟨hrows, hpixels⟩ := rows_of_drawAll? hw hh h
  obtain ⟨t', ht', hpixels'⟩ := drawAll?_of_rows hw hh fun c hc => hrows c (hmem c hc)
  exact ⟨t', ht', by rw [hpixels', hpixels, heq]⟩

theorem drawAll?_perm (hw : 0 < s.width) (hh : 0 < s.height) (h : drawAll? s calls = some t)
    (hperm : calls.Perm calls') : ∃ t', drawAll? s calls' = some t' ∧ t'.pixels = t.pixels :=
  drawAll?_of_switched_eq hw hh h (fun _ hc => hperm.mem_iff.mpr hc)
    (Screen.switched_perm (hperm.symm.flatMap_right points))

theorem drawAll?_remove (hw : 0 < s.width) (hh : 0 < s.height)
    (before between after : List SpriteCall) (hsame : c.Same d)
    (h : drawAll? s (before ++ c :: between ++ d :: after) = some t) :
    ∃ t', drawAll? s (before ++ between ++ after) = some t' ∧ t'.pixels = t.pixels := by
  have hperm : (before ++ c :: between ++ d :: after).Perm
      (c :: d :: (before ++ between ++ after)) := by
    calc (before ++ c :: between ++ d :: after).Perm (d :: (before ++ c :: between ++ after)) :=
          List.perm_middle
      _ = d :: (before ++ c :: (between ++ after)) := by rw [List.append_assoc, List.cons_append]
      List.Perm _ (d :: c :: (before ++ (between ++ after))) := List.Perm.cons d List.perm_middle
      List.Perm _ (c :: d :: (before ++ (between ++ after))) := List.Perm.swap c d _
      _ = c :: d :: (before ++ between ++ after) := by rw [List.append_assoc]
  refine drawAll?_of_switched_eq hw hh h (fun b hb => ?_) ?_
  · exact hperm.mem_iff.mpr (List.mem_cons_of_mem c (List.mem_cons_of_mem d hb))
  · rw [Screen.switched_perm (hperm.flatMap_right points), List.flatMap_cons, List.flatMap_cons,
      hsame.points_eq, ← List.append_assoc, Screen.switched_append s (d.points ++ d.points),
      Screen.switched_twice]

end SpriteCall

namespace Machine

variable {m m₁ : Machine} {x y n : Int}

/-- The call that an instruction makes. -/
def spriteCall (m : Machine) (x y n : Int) : SpriteCall where
  x := (m.reg x).toNat
  y := (m.reg y).toNat
  memory := m.memory
  index := m.i
  height := n

theorem execute_draw_of_rows {rows : List UInt8} (hw : 0 < m.screen.width)
    (hh : 0 < m.screen.height) (hread : m.memory.readBlock m.i n = .ok rows) :
    m.execute (.draw x y n) =
      let drawn := m.screen.toggleAll (Screen.spritePoints (m.reg x).toNat (m.reg y).toNat rows)
      done ({ m with screen := drawn.2.markRedraw }.setFlag drawn.1).next := by
  simp only [execute, drawSprite, hread, Screen.drawSprite_of_pixels hw hh]

theorem rows?_spriteCall {rows : List UInt8} (hread : m.memory.readBlock m.i n = .ok rows) :
    (m.spriteCall x y n).rows? = some rows := by
  change (m.memory.readBlock m.i n).toOption = some rows
  rw [hread]
  rfl

theorem readBlock_of_execute_draw (h : m.execute (.draw x y n) = done m₁) :
    ∃ rows, m.memory.readBlock m.i n = .ok rows := by
  cases hread : m.memory.readBlock m.i n with
  | ok rows => exact ⟨rows, rfl⟩
  | error f =>
    simp only [execute, drawSprite, hread, stopped, done] at h
    cases h

/-- What another instruction to draw looks at is left alone, except for the picture. -/
structure SameCalls (m m₁ : Machine) : Prop where
  shape : m.screen.SameShape m₁.screen
  memory : m₁.memory = m.memory
  i : m₁.i = m.i
  reg : ∀ z, register z ≠ register flagRegister → m₁.reg z = m.reg z

theorem SameCalls.spriteCall_eq (h : SameCalls m m₁) (hx : register x ≠ register flagRegister)
    (hy : register y ≠ register flagRegister) : m₁.spriteCall x y n = m.spriteCall x y n := by
  unfold spriteCall
  rw [h.reg x hx, h.reg y hy, h.memory, h.i]

/-- An instruction that is executed makes its call, and sets the flag besides. -/
theorem draw?_of_execute_draw (hw : 0 < m.screen.width) (hh : 0 < m.screen.height)
    (h : m.execute (.draw x y n) = done m₁) :
    (m.spriteCall x y n).draw? m.screen = some m₁.screen ∧ SameCalls m m₁ := by
  obtain ⟨rows, hread⟩ := readBlock_of_execute_draw h
  rw [execute_draw_of_rows hw hh hread] at h
  have hm₁ := congrArg Outcome.machine h
  subst hm₁
  constructor
  · refine (SpriteCall.draw?_eq_some_iff hw hh).mpr ⟨?_, ?_⟩
    · rw [rows?_spriteCall hread]
      rfl
    · rw [← Screen.toggleAll_switched, SpriteCall.points, rows?_spriteCall hread]
      rfl
  · exact {
      shape := Screen.toggleAll_sameShape m.screen _
      memory := rfl
      i := rfl
      reg := fun z hz => (reg_setReg _ flagRegister z _).trans (if_neg hz) }

theorem execute_draw_of_rows? (hw : 0 < m.screen.width) (hh : 0 < m.screen.height)
    (h : (m.spriteCall x y n).rows?.isSome) : ∃ m₁, m.execute (.draw x y n) = done m₁ := by
  cases hread : m.memory.readBlock m.i n with
  | ok rows => exact ⟨_, execute_draw_of_rows hw hh hread⟩
  | error f =>
    change (m.memory.readBlock m.i n).toOption.isSome = true at h
    rw [hread] at h
    cases h

/-- The same instruction can be executed again, and then the picture is the first one. -/
theorem draw_twice (hw : 0 < m.screen.width) (hh : 0 < m.screen.height)
    (hx : register x ≠ register flagRegister) (hy : register y ≠ register flagRegister)
    (h : m.execute (.draw x y n) = done m₁) :
    ∃ m₂, m₁.execute (.draw x y n) = done m₂ ∧ m₂.screen.pixels = m.screen.pixels := by
  obtain ⟨hfirst, hsame⟩ := draw?_of_execute_draw hw hh h
  have hw₁ : 0 < m₁.screen.width := hsame.shape.1 ▸ hw
  have hh₁ : 0 < m₁.screen.height := hsame.shape.2 ▸ hh
  have hcall : m₁.spriteCall x y n = m.spriteCall x y n := hsame.spriteCall_eq hx hy
  have hrows := ((SpriteCall.draw?_eq_some_iff hw hh).mp hfirst).1
  obtain ⟨m₂, h₂⟩ : ∃ m₂, m₁.execute (.draw x y n) = done m₂ :=
    execute_draw_of_rows? hw₁ hh₁ (hcall ▸ hrows)
  have hsecond := (draw?_of_execute_draw hw₁ hh₁ h₂).1
  rw [hcall] at hsecond
  have hboth : SpriteCall.drawAll? m.screen [m.spriteCall x y n, m.spriteCall x y n] =
      some m₂.screen := by
    simp only [SpriteCall.drawAll?, hfirst, hsecond, Option.bind_some]
  obtain ⟨t, ht, hpixels⟩ := SpriteCall.drawAll?_remove hw hh [] [] [] ⟨rfl, rfl, rfl⟩ hboth
  cases ht
  exact ⟨m₂, h₂, hpixels.symm⟩

/-! ## The flag of the second time -/

theorem drawn_of_execute_draw {n : Nat} (hw : 0 < m.screen.width) (hh : 0 < m.screen.height)
    (h : m.execute (.draw x y n) = done m₁) :
    m₁.screen = (m.drawn x y n).2.markRedraw ∧
      m₁.reg flagRegister = if (m.drawn x y n).1 then 1 else 0 := by
  obtain ⟨rows, hread⟩ := readBlock_of_execute_draw h
  have hrows := Memory.eq_blockAt_of_readBlock hread
  subst hrows
  rw [execute_draw_of_rows hw hh hread] at h
  have hm₁ := congrArg Outcome.machine h
  subst hm₁
  exact ⟨rfl, (reg_setReg _ flagRegister flagRegister _).trans (if_pos rfl)⟩

/-- A set bit of the sprite falls on a pixel that is not lit. -/
def CoversDark (m : Machine) (x y : Int) (n : Nat) : Prop :=
  ∃ px py, m.screen.Inside px py ∧ m.SpriteCovers x y n px py ∧ m.screen.lit px py = false

theorem SameCalls.spriteCovers_iff {n : Nat} {px py : Int} (h : SameCalls m m₁)
    (hx : register x ≠ register flagRegister) (hy : register y ≠ register flagRegister) :
    m₁.SpriteCovers x y n px py ↔ m.SpriteCovers x y n px py := by
  unfold SpriteCovers
  rw [h.reg x hx, h.reg y hy, h.memory, h.i, h.shape.1, h.shape.2]

/-- What the second sprite switches off is what the first one lit. -/
theorem collided_twice {n : Nat} (hw : 8 ≤ m.screen.width) (hh : n ≤ m.screen.height)
    (hh' : 0 < m.screen.height) (hx : register x ≠ register flagRegister)
    (hy : register y ≠ register flagRegister) (h : m.execute (.draw x y n) = done m₁) :
    (m₁.drawn x y n).1 = true ↔ m.CoversDark x y n := by
  have hw' : 0 < m.screen.width := by omega
  have hsame := (draw?_of_execute_draw hw' hh' h).2
  have hscreen := (drawn_of_execute_draw hw' hh' h).1
  have hw₁ : 8 ≤ m₁.screen.width := hsame.shape.1 ▸ hw
  have hh₁ : n ≤ m₁.screen.height := hsame.shape.2 ▸ hh
  rw [collided_drawn x y hw₁ hh₁]
  refine exists_congr fun px => exists_congr fun py => ?_
  have hin : m₁.screen.Inside px py ↔ m.screen.Inside px py := by
    unfold Screen.Inside
    rw [hsame.shape.1, hsame.shape.2]
  rw [hin]
  refine and_congr_right fun hinside => ?_
  rw [lit_drawn x y hw₁ hh₁ (hin.mpr hinside), hsame.spriteCovers_iff hx hy]
  refine and_congr_right fun hcovers => ?_
  have hlit : m₁.screen.lit px py = (m.drawn x y n).2.lit px py := by rw [hscreen]; rfl
  have hchanged : m₁.screen.lit px py ≠ m.screen.lit px py :=
    hlit ▸ (lit_drawn x y hw hh hinside).mpr hcovers
  rw [Bool.eq_not.mpr hchanged, Bool.not_eq_true']

/-- On any screen that has pixels, sprites make the same picture in whatever order they are drawn,
and two that are the same can be left out. An instruction makes such a call, so one that is executed
twice restores the picture, unless the flag register holds one of its coordinates; if the sprite
fits the screen, the second time it reports a collision exactly if the first time it lit a pixel. -/
theorem sprites_commute_and_cancel (hw : 1 ≤ m.screen.width) (hh : 1 ≤ m.screen.height) :
    (∀ calls calls' t, SpriteCall.drawAll? m.screen calls = some t → calls.Perm calls' →
      ∃ t', SpriteCall.drawAll? m.screen calls' = some t' ∧ t'.pixels = t.pixels) ∧
    (∀ before between after c d t, c.Same d →
      SpriteCall.drawAll? m.screen (before ++ c :: between ++ d :: after) = some t →
      ∃ t', SpriteCall.drawAll? m.screen (before ++ between ++ after) = some t' ∧
        t'.pixels = t.pixels) ∧
    (∀ x y n m₁, m.execute (.draw x y n) = done m₁ →
      (m.spriteCall x y n).draw? m.screen = some m₁.screen) ∧
    (∀ x y (n : Nat) m₁, register x ≠ register flagRegister →
      register y ≠ register flagRegister → m.execute (.draw x y n) = done m₁ →
      ∃ m₂, m₁.execute (.draw x y n) = done m₂ ∧ m₂.screen.pixels = m.screen.pixels ∧
        (8 ≤ m.screen.width → n ≤ m.screen.height →
          (m₂.reg flagRegister = 1 ∧ m.CoversDark x y n) ∨
            (m₂.reg flagRegister = 0 ∧ ¬ m.CoversDark x y n))) := by
  refine ⟨fun _ _ _ => SpriteCall.drawAll?_perm hw hh,
    fun before between after _ _ _ => SpriteCall.drawAll?_remove hw hh before between after,
    fun _ _ _ _ h => (draw?_of_execute_draw hw hh h).1, ?_⟩
  intro x y n m₁ hx hy h
  obtain ⟨m₂, h₂, hpixels⟩ := draw_twice hw hh hx hy h
  refine ⟨m₂, h₂, hpixels, fun hwide hhigh => ?_⟩
  have hsame := (draw?_of_execute_draw hw hh h).2
  have hflag := (drawn_of_execute_draw (hsame.shape.1 ▸ hw) (hsame.shape.2 ▸ hh) h₂).2
  have hcollided := collided_twice hwide hhigh hh hx hy h
  cases hbit : (m₁.drawn x y n).1 with
  | true =>
    rw [hbit] at hflag
    exact Or.inl ⟨hflag, hcollided.mp hbit⟩
  | false =>
    rw [hbit] at hflag
    exact Or.inr ⟨hflag, fun hdark => Bool.false_ne_true (hbit.symm.trans (hcollided.mpr hdark))⟩

/-- A screen of one row, where a sprite of two rows covers pixels twice. `V0` is near its right
edge, and one pixel is lit. -/
def oneRow : Machine :=
  (initial ⟨#[0xF0, 0xFF]⟩ (CallStack.ofSize 0) ((Screen.blank 8 1).toggle 3 0) false fun _ =>
    0).setReg 0 6

/-- Both rows, of which the second comes back over the first. -/
def folded : SpriteCall := ⟨5, 0, oneRow.memory, 0, 2⟩

/-- The first row, beyond the left edge and below the screen. -/
def beyond : SpriteCall := ⟨-3, 9, oneRow.memory, 0, 1⟩

theorem sprites_commute_and_cancel_oneRow :
    1 ≤ oneRow.screen.width ∧ 1 ≤ oneRow.screen.height ∧
      (∃ t t', SpriteCall.drawAll? oneRow.screen [folded, beyond, folded] = some t ∧
        SpriteCall.drawAll? oneRow.screen [beyond] = some t' ∧ t'.pixels = t.pixels) ∧
      ∃ m₁ m₂, oneRow.execute (.draw 0 1 (1 : Nat)) = done m₁ ∧
        m₁.execute (.draw 0 1 (1 : Nat)) = done m₂ ∧ m₂.screen.pixels = oneRow.screen.pixels ∧
        m₁.screen.pixels ≠ oneRow.screen.pixels ∧ m₂.reg flagRegister = 1 := by
  have hw : 1 ≤ oneRow.screen.width := by decide
  have hh : 1 ≤ oneRow.screen.height := by decide
  obtain ⟨_, hremove, _, htwice⟩ := sprites_commute_and_cancel hw hh
  refine ⟨hw, hh, ?_, ?_⟩
  · obtain ⟨t, ht⟩ : ∃ t, SpriteCall.drawAll? oneRow.screen [folded, beyond, folded] = some t :=
      Option.isSome_iff_exists.mp (by decide)
    obtain ⟨t', ht', hpixels⟩ := hremove [] [beyond] [] folded folded t ⟨rfl, rfl, rfl⟩ ht
    exact ⟨t, t', ht, ht', hpixels⟩
  · have h₁ : oneRow.execute (.draw 0 1 (1 : Nat)) =
        done (oneRow.execute (.draw 0 1 (1 : Nat))).machine := rfl
    obtain ⟨m₂, h₂, hpixels, hflag⟩ := htwice 0 1 1 _ (by decide) (by decide) h₁
    refine ⟨_, m₂, h₁, h₂, hpixels, by decide, ?_⟩
    rcases hflag (by decide) (by decide) with ⟨hset, _⟩ | ⟨_, hnone⟩
    · exact hset
    · have hcovers : oneRow.SpriteCovers 0 1 1 6 0 :=
        ⟨0, by decide, 0, by decide, by decide, by decide, by decide⟩
      exact absurd ⟨6, 0, ⟨by decide, by decide⟩, hcovers, by decide⟩ hnone

end Machine

end Chip8
