import Mathlib.Data.List.TakeWhile
import Chip8.Text.Integer

/-! # Which texts are integers

The grammar of a written integer, and that it is what the reader accepts: `integer?` finds a number
exactly if the text is written for it. Digits and signs are no blanks, so the blanks around a number
are told apart from it, and a digit is no sign and no low line, so a number is read in one way. -/

namespace Chip8.Text

/-- Digits one after the other, some with a low line behind them and another digit behind that. -/
inductive DigitRun : List Char → List Nat → Prop
  | last {c : Char} {d : Nat} (hc : digitValue? c = some d) : DigitRun [c] [d]
  | next {c : Char} {d : Nat} {cs : List Char} {ds : List Nat} (hc : digitValue? c = some d)
      (hrest : DigitRun cs ds) : DigitRun (c :: cs) (d :: ds)
  | line {c : Char} {d : Nat} {cs : List Char} {ds : List Nat} (hc : digitValue? c = some d)
      (hrest : DigitRun cs ds) : DigitRun (c :: '_' :: cs) (d :: ds)

/-- A number without blanks around it: digits, not too many, and at most one sign. -/
inductive Numeral : List Char → Int → Prop
  | plain {cs : List Char} {ds : List Nat} (h : DigitRun cs ds) (hlen : ds.length ≤ maxDigits) :
      Numeral cs (ofDigits ds)
  | plus {cs : List Char} {ds : List Nat} (h : DigitRun cs ds) (hlen : ds.length ≤ maxDigits) :
      Numeral ('+' :: cs) (ofDigits ds)
  | minus {cs : List Char} {ds : List Nat} (h : DigitRun cs ds) (hlen : ds.length ≤ maxDigits) :
      Numeral ('-' :: cs) (-ofDigits ds)

/-- A number with any blanks around it. -/
def Written (text : List Char) (n : Int) : Prop :=
  ∃ before numeral after, text = before ++ numeral ++ after ∧
    (∀ c ∈ before, isBlank c = true) ∧ (∀ c ∈ after, isBlank c = true) ∧ Numeral numeral n

/-! ## What a digit is not -/

theorem isBlank_of_digit {c : Char} {d : Nat} (h : digitValue? c = some d) :
    isBlank c = false := by
  have hapart : ∀ z ∈ digitZeros, 0x0D < z ∧ (z + 10 ≤ 0x85 ∨ 0xA0 < z) ∧
      (z + 10 ≤ 0x1680 ∨ 0x1680 < z) ∧ (z + 10 ≤ 0x2000 ∨ 0x3000 < z) ∧ 0x20 < z := by
    decide
  unfold digitValue? at h
  rw [Option.map_eq_some_iff] at h
  obtain ⟨z, hz, -⟩ := h
  have hbounds := hapart z (List.mem_of_find?_eq_some hz)
  have hin : z ≤ c.toNat ∧ c.toNat < z + 10 := by simpa using List.find?_some hz
  simp only [isBlank, Bool.or_eq_false_iff, Bool.and_eq_false_iff, decide_eq_false_iff_not,
    beq_eq_false_iff_ne]
  omega

theorem digitValue?_sign : digitValue? '-' = none ∧ digitValue? '+' = none := by decide

theorem digitValue?_line : digitValue? '_' = none := by decide

theorem DigitRun.head {cs : List Char} {ds : List Nat} (h : DigitRun cs ds) :
    ∃ c rest d, cs = c :: rest ∧ digitValue? c = some d := by
  cases h with
  | last hc => exact ⟨_, _, _, rfl, hc⟩
  | next hc _ => exact ⟨_, _, _, rfl, hc⟩
  | line hc _ => exact ⟨_, _, _, rfl, hc⟩

theorem DigitRun.last? {cs : List Char} {ds : List Nat} (h : DigitRun cs ds) :
    ∃ front c d, cs = front ++ [c] ∧ digitValue? c = some d := by
  induction h with
  | last hc => exact ⟨[], _, _, rfl, hc⟩
  | next _ _ ih =>
    obtain ⟨front, c, d, rfl, hc⟩ := ih
    exact ⟨_ :: front, c, d, rfl, hc⟩
  | line _ _ ih =>
    obtain ⟨front, c, d, rfl, hc⟩ := ih
    exact ⟨_ :: '_' :: front, c, d, rfl, hc⟩

/-! ## Reading -/

theorem eq_some_cons_iff {first : Option Nat} {rest : Option (List Nat)} {ds : List Nat} :
    (do return (← first) :: (← rest)) = some ds ↔
      ∃ d ds', first = some d ∧ rest = some ds' ∧ ds = d :: ds' := by
  cases first with
  | none => simp
  | some d =>
    cases rest with
    | none => simp
    | some ds' => simp [eq_comm]

theorem digits?_eq_some_iff {cs : List Char} {ds : List Nat} :
    digits? cs = some ds ↔ DigitRun cs ds := by
  fun_induction digits? cs generalizing ds with
  | case1 =>
    constructor
    · nofun
    · intro h
      cases h
  | case2 c =>
    rw [Option.map_eq_some_iff]
    constructor
    · rintro ⟨d, hc, rfl⟩
      exact .last hc
    · intro h
      cases h with
      | last hc => exact ⟨_, hc, rfl⟩
      | next _ hrest => cases hrest
  | case3 c rest ih =>
    rw [eq_some_cons_iff]
    constructor
    · rintro ⟨d, ds', hc, hrest, rfl⟩
      exact .line hc (ih.mp hrest)
    · intro h
      cases h with
      | line hc hrest => exact ⟨_, _, hc, ih.mpr hrest, rfl⟩
      | next _ hrest =>
        -- The low line would have to be a digit.
        obtain ⟨c', rest', d, heq, hd⟩ := hrest.head
        cases heq
        rw [digitValue?_line] at hd
        cases hd
  | case4 c rest hne hline ih =>
    rw [eq_some_cons_iff]
    constructor
    · rintro ⟨d, ds', hc, hrest, rfl⟩
      exact .next hc (ih.mp hrest)
    · intro h
      cases h with
      | last _ => exact absurd rfl hne
      | next hc hrest => exact ⟨_, _, hc, ih.mpr hrest, rfl⟩
      | line _ _ => exact absurd rfl (hline _)

theorem natural?_eq_some_iff {cs : List Char} {n : Nat} :
    natural? cs = some n ↔
      ∃ ds, DigitRun cs ds ∧ ds.length ≤ maxDigits ∧ ofDigits ds = n := by
  unfold natural?
  rw [Option.bind_eq_bind, Option.bind_eq_some_iff]
  refine exists_congr fun ds => ?_
  rw [digits?_eq_some_iff]
  refine and_congr_right fun _ => ?_
  split
  · rename_i hlen
    rw [Option.some_inj]
    exact ⟨fun h => ⟨hlen, h⟩, And.right⟩
  · rename_i hlen
    exact ⟨nofun, fun h => absurd h.1 hlen⟩

theorem integer?_eq_some_iff_numeral {text : List Char} {n : Int} :
    integer? text = some n ↔ Numeral (trimBlanks text) n := by
  unfold integer?
  generalize trimBlanks text = core
  split
  · rename_i cs
    simp only [Option.map_eq_some_iff, Option.bind_eq_bind, Option.bind_eq_some_iff,
      Option.pure_def, Option.some_inj, natural?_eq_some_iff]
    constructor
    · rintro ⟨_, ⟨_, ⟨ds, hrun, hlen, rfl⟩, rfl⟩, rfl⟩
      exact .minus hrun hlen
    · intro h
      cases h with
      | minus hrun hlen => exact ⟨_, ⟨_, ⟨_, hrun, hlen, rfl⟩, rfl⟩, rfl⟩
      | plain hrun _ =>
        obtain ⟨c, rest, d, heq, hd⟩ := hrun.head
        cases heq
        rw [digitValue?_sign.1] at hd
        cases hd
  · rename_i cs
    simp only [Option.map_eq_some_iff, natural?_eq_some_iff]
    constructor
    · rintro ⟨_, ⟨ds, hrun, hlen, rfl⟩, rfl⟩
      exact .plus hrun hlen
    · intro h
      cases h with
      | plus hrun hlen => exact ⟨_, ⟨_, hrun, hlen, rfl⟩, rfl⟩
      | plain hrun _ =>
        obtain ⟨c, rest, d, heq, hd⟩ := hrun.head
        cases heq
        rw [digitValue?_sign.2] at hd
        cases hd
  · rename_i hminus hplus
    simp only [Option.map_eq_some_iff, natural?_eq_some_iff]
    constructor
    · rintro ⟨_, ⟨ds, hrun, hlen, rfl⟩, rfl⟩
      exact .plain hrun hlen
    · intro h
      cases h with
      | plain hrun hlen => exact ⟨_, ⟨_, hrun, hlen, rfl⟩, rfl⟩
      | plus _ _ => exact absurd rfl (hplus _)
      | minus _ _ => exact absurd rfl (hminus _)

/-! ## Blanks around a number -/

theorem trim_split (drop : Char → Bool) (cs : List Char) :
    ∃ before after, cs = before ++ trim drop cs ++ after ∧
      (∀ c ∈ before, drop c = true) ∧ ∀ c ∈ after, drop c = true := by
  refine ⟨cs.takeWhile drop, ((cs.dropWhile drop).reverse.takeWhile drop).reverse, ?_, ?_, ?_⟩
  · rw [trim, List.append_assoc, ← List.reverse_append, List.takeWhile_append_dropWhile,
      List.reverse_reverse, List.takeWhile_append_dropWhile]
  · exact fun c hc => List.mem_takeWhile_imp hc
  · exact fun c hc => List.mem_takeWhile_imp (List.mem_reverse.mp hc)

theorem trim_of_ends {drop : Char → Bool} {before core after front rest : List Char}
    {first last : Char} (hbefore : ∀ c ∈ before, drop c = true)
    (hafter : ∀ c ∈ after, drop c = true) (hfirst : core = first :: rest)
    (hlast : core = front ++ [last]) (hkeep : drop first = false) (hkeep' : drop last = false) :
    trim drop (before ++ core ++ after) = core := by
  have hfront : (before ++ core ++ after).dropWhile drop = core ++ after := by
    rw [List.append_assoc, List.dropWhile_append_of_pos hbefore, hfirst, List.cons_append,
      List.dropWhile_cons_of_neg (by rw [hkeep]; exact Bool.false_ne_true)]
  have hback : ((core ++ after).reverse).dropWhile drop = core.reverse := by
    rw [List.reverse_append,
      List.dropWhile_append_of_pos fun c hc => hafter c (List.mem_reverse.mp hc), hlast,
      List.reverse_append, List.reverse_singleton, List.singleton_append,
      List.dropWhile_cons_of_neg (by rw [hkeep']; exact Bool.false_ne_true)]
  rw [trim, hfront, hback, List.reverse_reverse]

/-- A numeral begins and ends with no blank. -/
theorem Numeral.ends {cs : List Char} {n : Int} (h : Numeral cs n) :
    ∃ first rest front last, cs = first :: rest ∧ cs = front ++ [last] ∧
      isBlank first = false ∧ isBlank last = false := by
  cases h with
  | plain hrun _ =>
    obtain ⟨first, rest, _, hfirst, hd⟩ := hrun.head
    obtain ⟨front, last, _, hlast, hd'⟩ := hrun.last?
    exact ⟨first, rest, front, last, hfirst, hlast, isBlank_of_digit hd, isBlank_of_digit hd'⟩
  | plus hrun _ =>
    obtain ⟨front, last, _, hlast, hd'⟩ := hrun.last?
    exact ⟨'+', _, '+' :: front, last, rfl, by rw [hlast]; rfl, by decide, isBlank_of_digit hd'⟩
  | minus hrun _ =>
    obtain ⟨front, last, _, hlast, hd'⟩ := hrun.last?
    exact ⟨'-', _, '-' :: front, last, rfl, by rw [hlast]; rfl, by decide, isBlank_of_digit hd'⟩

/-- A text is read as a number exactly if it is written for that number. -/
theorem integer?_eq_some_iff {text : List Char} {n : Int} :
    integer? text = some n ↔ Written text n := by
  rw [integer?_eq_some_iff_numeral]
  constructor
  · intro h
    obtain ⟨before, after, hsplit, hbefore, hafter⟩ := trim_split isBlank text
    exact ⟨before, _, after, hsplit, hbefore, hafter, h⟩
  · rintro ⟨before, core, after, rfl, hbefore, hafter, h⟩
    obtain ⟨first, rest, front, last, hfirst, hlast, hkeep, hkeep'⟩ := h.ends
    rw [trimBlanks, trim_of_ends hbefore hafter hfirst hlast hkeep hkeep']
    exact h

theorem integer?_eq_none_iff {text : List Char} :
    integer? text = none ↔ ∀ n, ¬ Written text n := by
  rw [Option.eq_none_iff_forall_ne_some]
  exact forall_congr' fun n => integer?_eq_some_iff.not

theorem Written.unique {text : List Char} {n k : Int} (h : Written text n)
    (h' : Written text k) : n = k :=
  Option.some_inj.mp ((integer?_eq_some_iff.mpr h).symm.trans (integer?_eq_some_iff.mpr h'))

end Chip8.Text
