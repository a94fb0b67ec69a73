import Mathlib.Data.List.TakeWhile

/-! # Where a written number ends

A number in decimal is told apart from what stands behind it, as long as that begins with a
character that is no digit. So it is told apart from every other number, with or without a sign. -/

namespace Chip8.Text

theorem toList_toString (n : Nat) : (toString n).toList = Nat.toDigits 10 n := by
  rw [Nat.toString_eq_ofList_toDigits, String.toList_ofList]

theorem takeWhile_decimal {c : Char} (hc : c.isDigit = false) (n : Nat) (rest : List Char) :
    ((toString n).toList ++ c :: rest).takeWhile Char.isDigit = Nat.toDigits 10 n := by
  have hdigits : ∀ d ∈ Nat.toDigits 10 n, d.isDigit = true := fun _ hd =>
    Nat.isDigit_of_mem_toDigits (by decide) (by decide) hd
  rw [toList_toString, List.takeWhile_append_of_pos hdigits,
    List.takeWhile_cons_of_neg (Bool.not_eq_true _ ▸ hc), List.append_nil]

theorem decimal_append_inj {m n : Nat} {c d : Char} {rest other : List Char}
    (hc : c.isDigit = false) (hd : d.isDigit = false)
    (h : (toString m).toList ++ c :: rest = (toString n).toList ++ d :: other) :
    m = n ∧ c :: rest = d :: other := by
  have hdigits : Nat.toDigits 10 m = Nat.toDigits 10 n := by
    rw [← takeWhile_decimal hc m rest, h, takeWhile_decimal hd]
  have hnumber := congrArg (fun ds => Nat.ofDigitChars 10 ds 0) hdigits
  have hmn : m = n := by simpa only [Nat.ofDigitChars_ten_toDigits] using hnumber
  subst hmn
  exact ⟨rfl, List.append_cancel_left h⟩

/-! ## Numbers with a sign -/

theorem repr_inj {m n : Nat} (h : m.repr = n.repr) : m = n := by
  have hblank : ' '.isDigit = false := by decide
  have hbefore : (toString m).toList ++ [' '] = (toString n).toList ++ [' '] :=
    congrArg (·.toList ++ [' ']) h
  exact (decimal_append_inj hblank hblank hbefore).1

theorem isDigit_of_mem_repr {c : Char} {n : Nat} (h : c ∈ n.repr.toList) : c.isDigit = true :=
  Nat.isDigit_of_mem_toDigits (by decide) (by decide) (toList_toString n ▸ h)

theorem toList_negSucc (n : Nat) :
    (toString (Int.negSucc n)).toList = '-' :: n.succ.repr.toList := by
  show ("-" ++ n.succ.repr).toList = _
  rw [String.toList_append]
  rfl

theorem blank_notMem_toString (n : Int) : ' ' ∉ (toString n).toList := by
  intro hmem
  cases n with
  | ofNat k => cases isDigit_of_mem_repr (n := k) hmem
  | negSucc k =>
    rw [toList_negSucc] at hmem
    cases hmem with
    | tail _ hmem => cases isDigit_of_mem_repr hmem

theorem sign_ne (m n : Nat) : toString (Int.ofNat m) ≠ toString (Int.negSucc n) := by
  intro h
  have hsign : '-' ∈ (toString (Int.ofNat m)).toList := by
    rw [h, toList_negSucc]
    exact List.mem_cons_self
  cases isDigit_of_mem_repr (n := m) hsign

theorem toString_inj {m n : Int} (h : toString m = toString n) : m = n := by
  cases m with
  | ofNat a =>
    cases n with
    | ofNat b => rw [repr_inj h]
    | negSucc b => exact absurd h (sign_ne a b)
  | negSucc a =>
    cases n with
    | ofNat b => exact absurd h.symm (sign_ne b a)
    | negSucc b =>
      have hdigits := congrArg String.toList h
      rw [toList_negSucc, toList_negSucc] at hdigits
      have hsucc := repr_inj (String.toList_inj.mp (List.cons.inj hdigits).2)
      rw [Nat.succ.inj hsucc]

end Chip8.Text
