import Chip8.Text.Hex

/-! # Reading hexadecimal text back

A number in hexadecimal is read back from its characters at whatever width it was written: zeros on
the left do not count, and a minus sign is no digit. A byte always takes two digits, so bytes are
read back though nothing stands between them. -/

namespace Chip8.Text

/-- The number of these hexadecimal digits, most significant first. -/
def valueOf (digits : List Char) : Nat := digits.foldl (fun n c => 16 * n + hexValue c) 0

/-- The number that is written in hexadecimal, perhaps after a minus sign. -/
def readHex (cs : List Char) : Int :=
  if cs.head? = some '-' then -valueOf cs.tail else valueOf cs

/-! ## Digits -/

theorem hexValue_digitChar {d : Nat} (h : d < 16) : hexValue (Nat.digitChar d) = d := by
  have hall : ∀ d : Fin 16, hexValue (Nat.digitChar d) = d := by decide
  exact hall ⟨d, h⟩

theorem valueOf_append_digit (digits : List Char) (c : Char) :
    valueOf (digits ++ [c]) = 16 * valueOf digits + hexValue c := by
  simp [valueOf]

theorem hexDigits_eq (n : Nat) :
    hexDigits n =
      if n < 16 then [Nat.digitChar n] else hexDigits (n / 16) ++ [Nat.digitChar (n % 16)] :=
  Nat.toDigits_eq_if (by decide)

theorem valueOf_hexDigits (n : Nat) : valueOf (hexDigits n) = n := by
  induction n using Nat.strongRecOn with
  | ind n ih =>
    rw [hexDigits_eq]
    split
    · rename_i hlt
      exact (valueOf_append_digit [] _).trans ((Nat.zero_add _).trans (hexValue_digitChar hlt))
    · rename_i hge
      rw [valueOf_append_digit, ih (n / 16) (by omega), hexValue_digitChar (by omega)]
      omega

theorem mem_hexDigits {n : Nat} {c : Char} (h : c ∈ hexDigits n) : ∃ d, c = Nat.digitChar d := by
  induction n using Nat.strongRecOn with
  | ind n ih =>
    rw [hexDigits_eq] at h
    split at h
    · exact ⟨n, List.mem_singleton.mp h⟩
    · rename_i hge
      rcases List.mem_append.mp h with h | h
      · exact ih (n / 16) (by omega) h
      · exact ⟨n % 16, List.mem_singleton.mp h⟩

/-! ## Numbers -/

theorem valueOf_leftpad (width : Nat) (digits : List Char) :
    valueOf (digits.leftpad width '0') = valueOf digits := by
  unfold List.leftpad
  induction width - digits.length with
  | zero => rfl
  | succ k ih => exact ih

theorem mem_leftpad_hexDigits {width n : Nat} {c : Char}
    (h : c ∈ (hexDigits n).leftpad width '0') : ∃ d, c = Nat.digitChar d := by
  rcases List.mem_append.mp h with h | h
  · exact ⟨0, (List.mem_replicate.mp h).2⟩
  · exact mem_hexDigits h

/-- A character that is neither a digit nor a minus sign is not there. -/
theorem notMem_hexChars {c : Char} (hdigit : ∀ d, Nat.digitChar d ≠ c) (hminus : c ≠ '-')
    (width : Nat) (n : Int) : c ∉ hexChars width n := by
  intro h
  unfold hexChars at h
  split at h
  · rcases List.mem_cons.mp h with h | h
    · exact hminus h
    · obtain ⟨d, hd⟩ := mem_leftpad_hexDigits h
      exact hdigit d hd.symm
  · obtain ⟨d, hd⟩ := mem_leftpad_hexDigits h
    exact hdigit d hd.symm

theorem readHex_hexChars (width : Nat) (n : Int) : readHex (hexChars width n) = n := by
  unfold hexChars
  split
  · unfold readHex
    rw [List.head?_cons, if_pos rfl, List.tail_cons, valueOf_leftpad, valueOf_hexDigits]
    omega
  · have hunsigned : ((hexDigits n.toNat).leftpad width '0').head? ≠ some '-' := by
      intro h
      obtain ⟨d, hd⟩ := mem_leftpad_hexDigits (List.mem_of_head? h)
      exact Nat.digitChar_ne '-' rfl hd.symm
    unfold readHex
    rw [if_neg hunsigned, valueOf_leftpad, valueOf_hexDigits]
    omega

theorem hex_inj {width : Nat} {m n : Int} : hex width m = hex width n ↔ m = n := by
  constructor
  · intro h
    rw [← readHex_hexChars width m, String.ofList_injective h, readHex_hexChars]
  · rintro rfl
    rfl

theorem blank_notMem_hex (width : Nat) (n : Int) : ' ' ∉ (hex width n).toList := by
  rw [hex, String.toList_ofList]
  exact notMem_hexChars (fun _ => Nat.digitChar_ne ' ' rfl) (by decide) width n

/-! ## Bytes -/

theorem hexChars_byte (b : UInt8) : hexChars 2 b.toNat =
    [Nat.digitChar (b.toNat / 16), Nat.digitChar (b.toNat % 16)] := by
  have hb := b.toNat_lt
  unfold hexChars
  rw [if_neg (Int.not_lt.mpr (Int.natCast_nonneg _)), Int.toNat_natCast, hexDigits_eq]
  split
  · rename_i hlt
    rw [Nat.div_eq_of_lt hlt, Nat.mod_eq_of_lt hlt]
    rfl
  · rw [hexDigits_eq, if_pos (by omega)]
    rfl

theorem toList_hexBytes (bytes : List UInt8) :
    (hexBytes bytes).toList = bytes.flatMap fun b => hexChars 2 b.toNat := by
  simp only [hexBytes, String.toList_join, List.flatMap_map, hex, String.toList_ofList]

theorem length_hexBytes (bytes : List UInt8) :
    (hexBytes bytes).toList.length = 2 * bytes.length := by
  rw [toList_hexBytes]
  induction bytes with
  | nil => rfl
  | cons b rest ih =>
    rw [List.flatMap_cons, List.length_append, ih, hexChars_byte, List.length_cons]
    exact Nat.add_comm _ _

theorem bytesOfHex_hexBytes (bytes : List UInt8) : bytesOfHex (hexBytes bytes).toList = bytes := by
  rw [toList_hexBytes]
  induction bytes with
  | nil => rfl
  | cons b rest ih =>
    have hb := b.toNat_lt
    have hvalue : 16 * hexValue (Nat.digitChar (b.toNat / 16)) +
        hexValue (Nat.digitChar (b.toNat % 16)) = b.toNat := by
      rw [hexValue_digitChar (by omega), hexValue_digitChar (by omega)]
      omega
    rw [List.flatMap_cons, hexChars_byte, List.cons_append, List.cons_append, List.nil_append,
      bytesOfHex, hvalue, UInt8.ofNat_toNat, ih]

end Chip8.Text
