import Chip8.Proofs.Instruction

/-! # The words of an instruction

`encode` writes an instruction down as a word, with a zero for every digit that its table does not
look at. Decoding gives the instruction back if its operands fit their fields, and a word that is
decoded is the one of its instruction but for digits that are ignored. So the words of the same
instruction are those that `Twin` relates, and the words of no instruction are those that `Unlisted`
lists. -/

namespace Chip8

namespace Opcode

/-- The words that no table has an entry for. -/
def Unlisted (op : Opcode) : Prop :=
  (op.group = 0x8 ∧ (0x8 ≤ op.n ∧ op.n ≤ 0xD ∨ op.n = 0xF)) ∨
    (op.group = 0xE ∧ op.kk ≠ 0x9E ∧ op.kk ≠ 0xA1) ∨
    (op.group = 0xF ∧ op.kk ∉ [0x07, 0x0A, 0x15, 0x18, 0x1E, 0x29, 0x33, 0x55, 0x65])

/-- Words that are equal, or differ in a digit that their tables do not look at. -/
inductive Twin : Opcode → Opcode → Prop
  | same (op : Opcode) : Twin op op
  /-- The tests of two registers. -/
  | lastDigit {op op' : Opcode} (hgroup : op.group = 0x5 ∨ op.group = 0x9)
      (h : op.raw / 0x10 = op'.raw / 0x10) : Twin op op'
  /-- The left shift. -/
  | thirdDigit {op op' : Opcode} (hgroup : op.group = 0x8) (hn : op.n = 0xE) (hn' : op'.n = 0xE)
      (h : op.raw / 0x100 = op'.raw / 0x100) : Twin op op'
  /-- Clearing the screen and returning. -/
  | secondDigit {op op' : Opcode} (hgroup : op.group = 0x0) (hgroup' : op'.group = 0x0)
      (hkk : op.kk = 0xE0 ∨ op.kk = 0xEE) (h : op.kk = op'.kk) : Twin op op'

/-- The word with a zero for a digit that is ignored. -/
def plain (op : Opcode) : Nat :=
  if op.group = 0x5 ∨ op.group = 0x9 then op.raw / 0x10 * 0x10
  else if op.group = 0x8 ∧ op.n = 0xE then op.raw / 0x100 * 0x100 + 0xE
  else if op.group = 0x0 ∧ (op.kk = 0xE0 ∨ op.kk = 0xEE) then op.kk
  else op.raw

variable {op op' : Opcode}

theorem eq_of_raw (h : op.raw = op'.raw) : op = op' := by
  cases op
  cases op'
  cases h
  rfl

theorem raw_ofInt (word : Int) : ((ofInt word).raw : Int) = word % 0x10000 :=
  Int.toNat_of_nonneg (Int.emod_nonneg word (by decide))

theorem ofInt_emod (word : Int) : ofInt (word % 0x10000) = ofInt word := by
  apply eq_of_raw
  have h := raw_ofInt word
  have h' := raw_ofInt (word % 0x10000)
  omega

theorem group_plain (op : Opcode) : op.plain / 0x1000 = op.group := by
  unfold plain group kk
  repeat' split
  all_goals omega

theorem twin_of_raw (h : op.raw = op'.raw) : Twin op op' := eq_of_raw h ▸ .same op

theorem twin_of_plain_eq (h : op.plain = op'.plain) : Twin op op' := by
  have hgroup : op.group = op'.group := by rw [← group_plain, h, group_plain]
  unfold plain at h
  rw [← hgroup] at h
  by_cases hskip : op.group = 0x5 ∨ op.group = 0x9
  · rw [if_pos hskip, if_pos hskip] at h
    exact .lastDigit hskip (by omega)
  rw [if_neg hskip, if_neg hskip] at h
  by_cases hshift : op.group = 0x8
  · simp only [hshift, true_and, Nat.reduceEqDiff, false_and, if_false] at h
    unfold n at h
    split at h <;> split at h
    · exact .thirdDigit hshift ‹_› ‹_› (by omega)
    · omega
    · omega
    · exact twin_of_raw h
  by_cases hhost : op.group = 0x0
  · have hhost' : op'.group = 0x0 := hgroup ▸ hhost
    simp only [hhost, true_and, Nat.reduceEqDiff, false_and, if_false] at h
    unfold group at hhost hhost'
    unfold kk at h
    split at h <;> split at h
    · exact .secondDigit hhost hhost' ‹_› h
    · omega
    · omega
    · exact twin_of_raw h
  · simp only [hshift, hhost, false_and, if_false] at h
    exact twin_of_raw h

end Opcode

namespace Instruction

open Opcode

/-- A word of a group with an address. -/
def addressWord (group : Nat) (nnn : Int) : Int := 0x1000 * group + nnn

/-- A word of a group with a register and a byte. -/
def byteWord (group : Nat) (x kk : Int) : Int := 0x1000 * group + 0x100 * x + kk

/-- A word of a group with three digits. -/
def digitsWord (group : Nat) (x y n : Int) : Int := 0x1000 * group + 0x100 * x + 0x10 * y + n

/-- The word of an instruction. -/
def encode : Instruction → Int
  | .sys nnn => addressWord 0x0 nnn
  | .clear => addressWord 0x0 0xE0
  | .ret => addressWord 0x0 0xEE
  | .jump nnn => addressWord 0x1 nnn
  | .call nnn => addressWord 0x2 nnn
  | .skipEqByte x kk => byteWord 0x3 x kk
  | .skipNeByte x kk => byteWord 0x4 x kk
  | .skipEq x y => digitsWord 0x5 x y 0x0
  | .loadByte x kk => byteWord 0x6 x kk
  | .addByte x kk => byteWord 0x7 x kk
  | .move x y => digitsWord 0x8 x y 0x0
  | .or x y => digitsWord 0x8 x y 0x1
  | .and x y => digitsWord 0x8 x y 0x2
  | .xor x y => digitsWord 0x8 x y 0x3
  | .add x y => digitsWord 0x8 x y 0x4
  | .sub x y => digitsWord 0x8 x y 0x5
  | .shiftRight x y => digitsWord 0x8 x y 0x6
  | .subFrom x y => digitsWord 0x8 x y 0x7
  | .shiftLeft x => digitsWord 0x8 x 0x0 0xE
  | .skipNe x y => digitsWord 0x9 x y 0x0
  | .setIndex nnn => addressWord 0xA nnn
  | .jumpOffset nnn => addressWord 0xB nnn
  | .random x kk => byteWord 0xC x kk
  | .draw x y n => digitsWord 0xD x y n
  | .skipPressed x => byteWord 0xE x 0x9E
  | .skipReleased x => byteWord 0xE x 0xA1
  | .readDelay x => byteWord 0xF x 0x07
  | .waitKey x => byteWord 0xF x 0x0A
  | .setDelay x => byteWord 0xF x 0x15
  | .setSound x => byteWord 0xF x 0x18
  | .addIndex x => byteWord 0xF x 0x1E
  | .fontIndex x => byteWord 0xF x 0x29
  | .storeDecimal x => byteWord 0xF x 0x33
  | .storeRegisters x => byteWord 0xF x 0x55
  | .loadRegisters x => byteWord 0xF x 0x65

variable {op op' : Opcode} {inst inst' : Instruction}

/-! ## Reading a written word -/

theorem fields_addressWord {nnn : Int} (h : IsAddress nnn) {g : Nat} (hg : g < 0x10) :
    (ofInt (addressWord g nnn)).group = g ∧ (ofInt (addressWord g nnn)).nnn = nnn.toNat ∧
      (ofInt (addressWord g nnn)).kk = nnn.toNat % 0x100 := by
  have hraw := raw_ofInt (addressWord g nnn)
  unfold IsAddress at h
  unfold addressWord at hraw ⊢
  unfold group Opcode.nnn Opcode.kk
  omega

theorem fields_byteWord {x kk : Int} (hx : IsDigit x) (hkk : IsByte kk) {g : Nat}
    (hg : g < 0x10) :
    (ofInt (byteWord g x kk)).group = g ∧ (ofInt (byteWord g x kk)).x = x.toNat ∧
      (ofInt (byteWord g x kk)).kk = kk.toNat := by
  have hraw := raw_ofInt (byteWord g x kk)
  unfold IsDigit at hx
  unfold IsByte at hkk
  unfold byteWord at hraw ⊢
  unfold group Opcode.x Opcode.kk
  omega

theorem fields_digitsWord {x y n : Int} (hx : IsDigit x) (hy : IsDigit y) (hn : IsDigit n)
    {g : Nat} (hg : g < 0x10) :
    (ofInt (digitsWord g x y n)).group = g ∧ (ofInt (digitsWord g x y n)).x = x.toNat ∧
      (ofInt (digitsWord g x y n)).y = y.toNat ∧ (ofInt (digitsWord g x y n)).n = n.toNat := by
  have hraw := raw_ofInt (digitsWord g x y n)
  unfold IsDigit at hx hy hn
  unfold digitsWord at hraw ⊢
  unfold group Opcode.x Opcode.y Opcode.n
  omega

theorem decode?_encode (h : inst.Encodable) : decode? (.ofInt inst.encode) = some inst := by
  have hdigit : ∀ n : Int, 0 ≤ n → n < 0x10 → IsDigit n := fun n hlow hhigh => ⟨hlow, hhigh⟩
  have hbyte : ∀ n : Int, 0 ≤ n → n < 0x100 → IsByte n := fun n hlow hhigh => ⟨hlow, hhigh⟩
  cases inst
  case clear | ret => rfl
  case sys nnn =>
    obtain ⟨hnnn, h0, hE⟩ := h
    have hnat := Int.toNat_of_nonneg hnnn.1
    simp only [encode, decode?, fields_addressWord hnnn, Nat.reduceLT, hnat]
    rw [if_neg (by omega), if_neg (by omega)]
  case jump nnn | call nnn | setIndex nnn | jumpOffset nnn =>
    have haddress : IsAddress nnn := h
    simp only [encode, decode?, fields_addressWord haddress, Nat.reduceLT,
      Int.toNat_of_nonneg haddress.1]
  case skipEqByte x kk | skipNeByte x kk | loadByte x kk | addByte x kk | random x kk =>
    obtain ⟨hx, hkk⟩ := h
    simp only [encode, decode?, fields_byteWord hx hkk, Nat.reduceLT,
      Int.toNat_of_nonneg hx.1, Int.toNat_of_nonneg hkk.1]
  case draw x y n =>
    obtain ⟨hx, hy, hn⟩ := h
    simp only [encode, decode?, fields_digitsWord hx hy hn, Nat.reduceLT,
      Int.toNat_of_nonneg hx.1, Int.toNat_of_nonneg hy.1, Int.toNat_of_nonneg hn.1]
  case skipEq x y | skipNe x y | move x y | or x y | and x y | xor x y | add x y | sub x y
    | shiftRight x y | subFrom x y =>
    obtain ⟨hx, hy⟩ := h
    have hxnat := Int.toNat_of_nonneg hx.1
    have hynat := Int.toNat_of_nonneg hy.1
    simp [encode, decode?, decodeArithmetic?, fields_digitsWord hx hy, hdigit, hxnat, hynat,
      -Int.ofNat_toNat]
  case shiftLeft x =>
    have hx : IsDigit x := h
    have hxnat := Int.toNat_of_nonneg hx.1
    simp [encode, decode?, decodeArithmetic?, fields_digitsWord hx, hdigit, hxnat,
      -Int.ofNat_toNat]
  all_goals
    rename_i x
    have hx : IsDigit x := h
    have hxnat := Int.toNat_of_nonneg hx.1
    simp [encode, decode?, decodeKey?, decodeTransfer?, fields_byteWord hx, hbyte, hxnat,
      -Int.ofNat_toNat]

/-! ## A word and that of its instruction -/

theorem raw_eq_addressWord (op : Opcode) : addressWord op.group op.nnn = op.raw := by
  unfold addressWord group Opcode.nnn
  omega

theorem raw_eq_byteWord (op : Opcode) : byteWord op.group op.x op.kk = op.raw := by
  have hraw := op.raw_lt
  unfold byteWord group Opcode.x Opcode.kk
  omega

theorem raw_eq_digitsWord (op : Opcode) : digitsWord op.group op.x op.y op.n = op.raw := by
  have hraw := op.raw_lt
  unfold digitsWord group Opcode.x Opcode.y Opcode.n
  omega

theorem encode_of_decodeArithmetic? (hg : op.group = 0x8)
    (h : decodeArithmetic? op = some inst) : inst.encode = op.plain := by
  have hraw := raw_eq_digitsWord op
  unfold decodeArithmetic? at h
  split at h <;> cases h
  case h_9 hn =>
    have hplain : op.plain = op.raw / 0x100 * 0x100 + 0xE := by simp [plain, hg, hn]
    have hlow : op.raw % 0x100 = 0x10 * op.y + op.n := by unfold Opcode.y Opcode.n; omega
    rw [hg, hn] at hraw
    unfold digitsWord at hraw
    simp only [encode, digitsWord, hplain]
    omega
  all_goals
    rename_i hn
    rw [hg, hn] at hraw
    simpa [encode, plain, hg, hn] using hraw

theorem encode_of_decodeKey? (hg : op.group = 0xE) (h : decodeKey? op = some inst) :
    inst.encode = op.plain := by
  have hraw := raw_eq_byteWord op
  unfold decodeKey? at h
  split at h <;> cases h
  all_goals
    rename_i hkk
    rw [hg, hkk] at hraw
    simpa [encode, plain, hg] using hraw

theorem encode_of_decodeTransfer? (hg : op.group = 0xF) (h : decodeTransfer? op = some inst) :
    inst.encode = op.plain := by
  have hraw := raw_eq_byteWord op
  unfold decodeTransfer? at h
  split at h <;> cases h
  all_goals
    rename_i hkk
    rw [hg, hkk] at hraw
    simpa [encode, plain, hg] using hraw

theorem group_lt (op : Opcode) : op.group < 0x10 := by
  have hraw := op.raw_lt
  unfold group
  omega

theorem encode_of_decode? (h : decode? op = some inst) : inst.encode = op.plain := by
  have haddress := raw_eq_addressWord op
  have hbyte := raw_eq_byteWord op
  have hdigits := raw_eq_digitsWord op
  have hlt := group_lt op
  unfold decode? at h
  split at h
  case h_9 hg => exact encode_of_decodeArithmetic? hg h
  case h_15 hg => exact encode_of_decodeKey? hg h
  case h_16 => exact encode_of_decodeTransfer? (by grind) h
  case h_1 hg =>
    rw [hg] at haddress
    split at h
    · rename_i h0
      cases h
      simp [encode, addressWord, plain, hg, h0]
    · rename_i h0
      split at h
      · rename_i hE
        cases h
        simp [encode, addressWord, plain, hg, hE]
      · rename_i hE
        cases h
        simpa [encode, plain, hg, h0, hE] using haddress
  case h_6 hg | h_10 hg =>
    cases h
    rw [hg] at hdigits
    have hplain : op.plain = op.raw / 0x10 * 0x10 := by simp [plain, hg]
    have hlow : op.raw % 0x10 = op.n := rfl
    unfold digitsWord at hdigits
    simp only [encode, digitsWord, hplain]
    omega
  case h_2 hg | h_3 hg | h_11 hg | h_12 hg =>
    cases h
    rw [hg] at haddress
    simpa [encode, plain, hg] using haddress
  case h_14 hg =>
    cases h
    rw [hg] at hdigits
    simpa [encode, plain, hg] using hdigits
  all_goals
    rename_i hg
    cases h
    rw [hg] at hbyte
    simpa [encode, plain, hg] using hbyte

/-! ## Which words decode, and to what -/

theorem decodeArithmetic?_eq_none_iff :
    decodeArithmetic? op = none ↔ 0x8 ≤ op.n ∧ op.n ≤ 0xD ∨ op.n = 0xF := by
  have hlt : op.n < 0x10 := Nat.mod_lt _ (by decide)
  unfold decodeArithmetic?
  split <;> simp <;> grind

theorem decodeKey?_eq_none_iff : decodeKey? op = none ↔ op.kk ≠ 0x9E ∧ op.kk ≠ 0xA1 := by
  unfold decodeKey?
  split <;> simp <;> grind

theorem decodeTransfer?_eq_none_iff :
    decodeTransfer? op = none ↔
      op.kk ∉ [0x07, 0x0A, 0x15, 0x18, 0x1E, 0x29, 0x33, 0x55, 0x65] := by
  unfold decodeTransfer?
  split <;> simp <;> grind

theorem decode?_eq_none_iff : decode? op = none ↔ op.Unlisted := by
  have hlt := group_lt op
  unfold decode? Unlisted
  split
  case h_9 hg => simp [hg, decodeArithmetic?_eq_none_iff]
  case h_15 hg => simp [hg, decodeKey?_eq_none_iff]
  case h_16 =>
    have hg : op.group = 0xF := by grind
    simp only [hg, decodeTransfer?_eq_none_iff]
    simp
  all_goals
    rename_i hg
    simp [hg]

theorem exists_word_iff : (∃ word : Int, decode? (.ofInt word) = some inst) ↔ inst.Encodable := by
  constructor
  · intro ⟨word, h⟩
    exact encodable_of_decode? h
  · intro h
    exact ⟨inst.encode, decode?_encode h⟩

/-- A digit that is ignored has no say in what a word means. -/
theorem decode?_eq_of_twin (h : Twin op op') : decode? op = decode? op' := by
  cases h with
  | same => rfl
  | lastDigit hgroup h =>
    have hgroup' : op'.group = op.group := by
      unfold group
      omega
    have hx : op'.x = op.x := by
      unfold Opcode.x
      omega
    have hy : op'.y = op.y := by
      unfold Opcode.y
      omega
    rcases hgroup with hg | hg <;> simp only [decode?, hgroup', hg, hx, hy]
  | thirdDigit hgroup hn hn' h =>
    have hgroup' : op'.group = 0x8 := by
      unfold group at hgroup ⊢
      omega
    have hx : op'.x = op.x := by
      unfold Opcode.x
      omega
    simp only [decode?, decodeArithmetic?, hgroup, hgroup', hn, hn', hx]
  | secondDigit hgroup hgroup' hkk h =>
    have hkk' : op'.kk = 0xE0 ∨ op'.kk = 0xEE := h ▸ hkk
    simp only [decode?, hgroup, hgroup', h]
    rcases hkk' with hkk' | hkk' <;> simp [hkk']

/-- Two words mean the same instruction exactly if they mean one and are twins. -/
theorem same_instruction_iff :
    (∃ inst, decode? op = some inst ∧ decode? op' = some inst) ↔ ¬ op.Unlisted ∧ Twin op op' := by
  rw [← decode?_eq_none_iff, ← ne_eq, Option.ne_none_iff_exists']
  constructor
  · intro ⟨inst, h, h'⟩
    have hplain : op.plain = op'.plain :=
      Int.ofNat_inj.mp ((encode_of_decode? h).symm.trans (encode_of_decode? h'))
    exact ⟨⟨inst, h⟩, twin_of_plain_eq hplain⟩
  · intro ⟨⟨inst, h⟩, htwin⟩
    exact ⟨inst, h, (decode?_eq_of_twin htwin).symm.trans h⟩

end Instruction

end Chip8
