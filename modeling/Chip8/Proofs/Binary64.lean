import Chip8.Binary64

/-! # What rounding keeps

Numbers are in order unless they are undefined. Sums of numbers that are not negative, their integer
parts and whatever is no smaller are not negative either, however they are rounded. Whole numbers
that are not too large are not rounded at all. -/

namespace Chip8.Binary64

variable {a b : Binary64} {p q : Rat}

/-! ## The order -/

theorem finite_le_finite : (finite p).le (finite q) = true ↔ p ≤ q := by
  simp only [le, lt, Bool.or_eq_true, decide_eq_true_eq, Bool.and_eq_true, beq_iff_eq,
    finite.injEq]
  constructor
  · exact fun h => h.elim Rat.le_of_lt fun he => he.1 ▸ Rat.le_refl
  · exact fun h => (Rat.le_iff_lt_or_eq.mp h).imp id fun he => ⟨he, rfl⟩

/-- Of two numbers one is at most the other. -/
theorem lt_eq_false_iff (ha : a ≠ .undefined) (hb : b ≠ .undefined) :
    a.lt b = false ↔ b.le a = true := by
  rcases a with p | negative | _
  · rcases b with q | other | _
    · rw [finite_le_finite, lt, decide_eq_false_iff_not, Rat.not_lt]
    · simp [le, lt]
    · exact absurd rfl hb
  · rcases b with q | other | _
    · simp [le, lt]
    · cases negative <;> cases other <;> decide
    · exact absurd rfl hb
  · exact absurd rfl ha

theorem le_eq_false_of_lt (h : a.lt b = true) : b.le a = false := by
  have ha : a ≠ .undefined := by
    rintro rfl
    cases h
  have hb : b ≠ .undefined := by
    rintro rfl
    cases a <;> cases h
  rw [Bool.eq_false_iff, Ne, ← lt_eq_false_iff ha hb, h]
  exact nofun

theorem le_finite_trans (h : a.le (finite p) = true) (hpq : p ≤ q) : a.le (finite q) = true := by
  rcases a with r | _ | _
  · exact finite_le_finite.mpr (Rat.le_trans (finite_le_finite.mp h) hpq)
  · simpa [le, lt] using h
  · simp [le, lt] at h

theorem finite_ne_undefined : finite q ≠ .undefined := Binary64.noConfusion

theorem ofRat_ne_undefined (q : Rat) : ofRat q ≠ .undefined := by
  unfold ofRat
  simp only []
  split <;> exact nofun

theorem finite_add_ne_undefined (hb : b ≠ .undefined) : (finite q).add b ≠ .undefined := by
  cases b with
  | finite p => exact ofRat_ne_undefined (q + p)
  | infinite _ => exact nofun
  | undefined => exact absurd rfl hb

theorem div_ne_undefined (hb : lt 0 b = true) : (finite q).div b ≠ .undefined := by
  cases b with
  | finite p =>
    have hp : p ≠ 0 := by
      rintro rfl
      exact absurd hb (by decide)
    unfold div
    simp only [if_neg hp]
    exact ofRat_ne_undefined (q / p)
  | infinite _ => exact nofun
  | undefined => cases hb

/-! ## Numbers that are not negative -/

/-- Zero, a positive number or the positive infinity. -/
def NonNeg (a : Binary64) : Prop := a = .infinite false ∨ ∃ q, 0 ≤ q ∧ a = .finite q

theorem twoPow_pos (e : Int) : 0 < twoPow e := by
  have hpow : ∀ n, (0 : Rat) < Nat.pow 2 n := fun n => by
    rw [Rat.natCast_pos]
    exact Nat.pow_pos (by decide)
  unfold twoPow
  split
  · exact hpow _
  · rw [Rat.div_def, Rat.one_mul]
    exact Rat.inv_pos.mpr (hpow _)

theorem nearestEven_nonneg (h : 0 ≤ q) : 0 ≤ nearestEven q := by
  have hfloor : 0 ≤ q.floor := Rat.le_floor_iff.mpr (by simpa using h)
  unfold nearestEven
  simp only []
  repeat' split
  all_goals omega

theorem round_nonneg (h : 0 ≤ q) : 0 ≤ round q := by
  unfold round
  split
  · exact Rat.le_refl
  · have hunit := twoPow_pos (lastDigit q)
    apply Rat.mul_nonneg _ (Rat.le_of_lt hunit)
    rw [Rat.intCast_nonneg]
    apply nearestEven_nonneg
    rw [Rat.div_def]
    exact Rat.mul_nonneg h (Rat.le_of_lt (Rat.inv_pos.mpr hunit))

theorem nonneg_ofRat (h : 0 ≤ q) : NonNeg (ofRat q) := by
  have hround := round_nonneg h
  unfold ofRat
  simp only []
  split
  · left
    rw [decide_eq_false (Rat.not_lt.mpr hround)]
  · exact Or.inr ⟨_, hround, rfl⟩

theorem NonNeg.add (ha : NonNeg a) (hb : NonNeg b) : NonNeg (a.add b) := by
  obtain rfl | ⟨p, hp, rfl⟩ := ha
  · obtain rfl | ⟨q, _, rfl⟩ := hb
    · exact Or.inl rfl
    · exact Or.inl rfl
  · obtain rfl | ⟨q, hq, rfl⟩ := hb
    · exact Or.inl rfl
    · exact nonneg_ofRat (Rat.add_nonneg hp hq)

theorem NonNeg.of_le (ha : NonNeg a) (h : a.le b = true) : NonNeg b := by
  obtain rfl | ⟨p, hp, rfl⟩ := ha
  · rcases b with q | _ | _
    · simp [le, lt] at h
    · simpa [le, lt, NonNeg] using h
    · simp [le, lt] at h
  · rcases b with q | negative | _
    · right
      exact ⟨q, Rat.le_trans hp (finite_le_finite.mp h), rfl⟩
    · simpa [le, lt, NonNeg] using h
    · simp [le, lt] at h

theorem NonNeg.integerPart? {n : Int} (ha : NonNeg a) (h : a.integerPart? = some n) : 0 ≤ n := by
  obtain rfl | ⟨p, hp, rfl⟩ := ha
  · cases h
  · cases h
    unfold truncate
    rw [if_pos hp]
    exact Rat.le_floor_iff.mpr (by simpa using hp)

/-! ## Whole numbers -/

theorem nearestEven_intCast (k : Int) : nearestEven k = k := by
  have hrest : (k : Rat) - ((k : Rat).floor : Rat) < 1 / 2 := by
    rw [Rat.floor_intCast, Rat.sub_self, Rat.lt_div_iff (by decide), Rat.zero_mul]
    decide
  unfold nearestEven
  simp only []
  rw [if_pos hrest, Rat.floor_intCast]

/-- Rounding leaves a multiple of the worth of its last digit. -/
theorem round_of_multiple {k : Int} (h : q = k * twoPow (lastDigit q)) : round q = q := by
  have hunit : twoPow (lastDigit q) ≠ 0 := Rat.ne_of_gt (twoPow_pos _)
  have hdiv : q / twoPow (lastDigit q) = k := by
    conv => lhs; lhs; rw [h]
    exact Rat.mul_div_cancel hunit
  unfold round
  split
  · exact (by assumption : q = 0).symm
  · rw [hdiv, nearestEven_intCast, ← h]

theorem log2_natCast_le {n : Nat} : log2 n ≤ Nat.log2 n := by
  have hden : (Nat.log2 (n : Rat).den : Int) = 0 := by
    rw [Rat.den_natCast]
    decide
  unfold log2
  simp only [hden, Rat.num_natCast, Int.natAbs_natCast, Int.sub_zero]
  split <;> omega

theorem twoPow_mul_pow {e : Int} (he : e ≤ 0) : twoPow e * (Nat.pow 2 (-e).toNat : Nat) = 1 := by
  unfold twoPow
  split
  · have hzero : e = 0 := by omega
    subst hzero
    exact Rat.mul_one 1
  · have hpow : (((Nat.pow 2 (-e).toNat : Nat) : Rat)) ≠ 0 :=
      Rat.ne_of_gt (Rat.natCast_pos.mpr (Nat.pow_pos (by decide)))
    exact Rat.div_mul_cancel hpow

/-- Whole numbers of 53 binary digits are multiples of the worth of their last digit, and so is the
next one. -/
theorem exists_multiple {n : Nat} (h : n ≤ Nat.pow 2 53) :
    ∃ k : Int, (n : Rat) = k * twoPow (lastDigit n) := by
  by_cases hdigit : lastDigit n ≤ 0
  · refine ⟨(n * Nat.pow 2 (-lastDigit n).toNat : Nat), ?_⟩
    rw [Rat.intCast_natCast, Rat.natCast_mul, Rat.mul_assoc, Rat.mul_comm _ (twoPow _),
      twoPow_mul_pow hdigit, Rat.mul_one]
  · have hlog : log2 n ≤ Nat.log2 n := log2_natCast_le
    have hlarge : 53 ≤ Nat.log2 n := by
      unfold lastDigit at hdigit
      omega
    have hpos : n ≠ 0 := by
      rintro rfl
      exact absurd hlarge (by decide)
    have hn : n = Nat.pow 2 53 := Nat.le_antisymm h ((Nat.le_log2 hpos).mp hlarge)
    have hone : lastDigit n = 1 := by
      have hlog53 : Nat.log2 n = 53 := hn ▸ Nat.log2_two_pow
      unfold lastDigit at hdigit ⊢
      omega
    have htwo : twoPow 1 = (2 : Nat) := rfl
    refine ⟨(Nat.pow 2 52 : Nat), ?_⟩
    rw [hone, hn, htwo, Rat.intCast_natCast, ← Rat.natCast_mul]

theorem lt_twoPow {n k : Nat} (h : n ≤ Nat.pow 2 53) (hk : 53 < k) : (n : Rat) < twoPow k := by
  have hlt : n < Nat.pow 2 k := Nat.lt_of_le_of_lt h (Nat.pow_lt_pow_right (by decide) hk)
  unfold twoPow
  rw [if_pos (Int.natCast_nonneg k), Int.toNat_natCast]
  exact Rat.natCast_lt_natCast.mpr hlt

theorem round_natCast {n : Nat} (h : n ≤ Nat.pow 2 53) : round n = n := by
  obtain ⟨k, hk⟩ := exists_multiple h
  exact round_of_multiple hk

/-- Whole numbers up to `2 ^ 53` are binary64 numbers. -/
theorem ofRat_natCast {n : Nat} (h : n ≤ Nat.pow 2 53) : ofRat n = .finite n := by
  have hbound : ¬ bound ≤ (n : Rat).abs := by
    rw [Rat.abs_of_nonneg Rat.natCast_nonneg, Rat.not_le]
    exact lt_twoPow h (by decide)
  unfold ofRat
  simp only []
  rw [round_natCast h, if_neg hbound]

end Chip8.Binary64
