import Mathlib.Data.List.Forall2
import Mathlib.Data.List.Nodup
import Chip8.Keymap
import Chip8.Proofs.Text.Integer

/-! # Which texts are keymaps

A text is a keymap exactly if it has sixteen parts that are numbers for sixteen different codes. The
parts are read from the left, and what is wrong with the first one that is refused is what is wrong
with the text. A part that is folded may be refused for a reason that no complaint about keymaps
names: its number is that of no character, or of the one that has no single lower case. -/

namespace Chip8.Keymap

variable {lower : Bool} {part : List Char} {code n : Int} {f : Fault}

/-- The second code is that of the lower-case form of the character with the first. -/
def LowerCase (n code : Int) : Prop :=
  ∃ c l : Nat, (c : Int) < characterCount ∧ Text.lowercase? c = some l ∧ n = c ∧ code = l

/-- The part is a number that stands for the code. -/
def Reads (lower : Bool) (part : List Char) (code : Int) : Prop :=
  ∃ n, Text.Written part n ∧ if lower then LowerCase n code else code = n

/-- What is wrong with a part behind parts that stand for the codes `earlier`. -/
inductive Refused (lower : Bool) (earlier : List Int) (part : List Char) : Fault → Prop
  | notInteger (h : ∀ n, ¬ Text.Written part n) : Refused lower earlier part .notInteger
  | noFold {n : Int} {f : Fault} (hlower : lower = true) (h : Text.Written part n)
      (hfold : fold n = .error f) : Refused lower earlier part f
  | duplicate {code : Int} (h : Reads lower part code) (hmem : code ∈ earlier) :
      Refused lower earlier part .duplicate

/-! ## One part -/

theorem fold_eq_ok_iff : fold n = .ok code ↔ LowerCase n code := by
  unfold fold LowerCase codeLimit characterCount
  constructor
  · intro h
    split at h
    · cases h
    · split at h
      · cases h
      · split at h
        · rename_i l hl
          cases h
          exact ⟨n.toNat, l, by omega, hl, by omega, rfl⟩
        · cases h
  · rintro ⟨c, l, hc, hl, rfl, rfl⟩
    rw [if_neg (by omega), if_neg (by omega), Int.toNat_natCast, hl]

theorem readCode_eq_ok_iff : readCode lower part = .ok code ↔ Reads lower part code := by
  unfold readCode Reads
  cases hn : Text.integer? part with
  | none =>
    have hno := Text.integer?_eq_none_iff.mp hn
    exact ⟨nofun, fun ⟨n, hw, _⟩ => absurd hw (hno n)⟩
  | some n =>
    have hwritten : ∀ k, Text.Written part k ↔ n = k := fun k => by
      rw [← Text.integer?_eq_some_iff, hn, Option.some_inj]
    simp only [hwritten, exists_eq_left']
    cases lower with
    | true => exact fold_eq_ok_iff
    | false => exact ⟨fun h => (Except.ok.inj h).symm, fun h => congrArg Except.ok h.symm⟩

theorem readCode_eq_error_iff :
    readCode lower part = .error f ↔
      ((∀ n, ¬ Text.Written part n) ∧ f = .notInteger) ∨
        (lower = true ∧ ∃ n, Text.Written part n ∧ fold n = .error f) := by
  unfold readCode
  cases hn : Text.integer? part with
  | none =>
    have hno := Text.integer?_eq_none_iff.mp hn
    constructor
    · intro h
      cases h
      exact Or.inl ⟨hno, rfl⟩
    · rintro (⟨_, rfl⟩ | ⟨_, n, hwritten, _⟩)
      · rfl
      · exact absurd hwritten (hno n)
  | some n =>
    have hwritten := Text.integer?_eq_some_iff.mp hn
    cases lower with
    | true =>
      constructor
      · exact fun h => Or.inr ⟨rfl, n, hwritten, h⟩
      · rintro (⟨hno, _⟩ | ⟨_, k, hk, hfold⟩)
        · exact absurd hwritten (hno n)
        · rwa [hk.unique hwritten] at hfold
    | false =>
      constructor
      · nofun
      · rintro (⟨hno, _⟩ | ⟨hlower, _⟩)
        · exact absurd hwritten (hno n)
        · cases hlower

/-- Reads a part that has to stand for a new code. -/
def readNew (lower : Bool) (seen : List Int) (part : List Char) : Except Fault Int :=
  match readCode lower part with
  | .error f => .error f
  | .ok code => if code ∈ seen then .error .duplicate else .ok code

theorem readNew_eq_ok_iff {seen : List Int} :
    readNew lower seen part = .ok code ↔ Reads lower part code ∧ code ∉ seen := by
  rw [← readCode_eq_ok_iff]
  unfold readNew
  cases readCode lower part with
  | error f => exact ⟨nofun, fun h => nomatch h.1⟩
  | ok c =>
    simp only [Except.ok.injEq]
    split
    · rename_i hmem
      exact ⟨nofun, fun ⟨heq, hnew⟩ => absurd (heq ▸ hmem) hnew⟩
    · rename_i hnew
      rw [Except.ok.injEq]
      exact ⟨fun heq => ⟨heq, heq ▸ hnew⟩, And.left⟩

theorem readNew_eq_error_iff {seen : List Int} :
    readNew lower seen part = .error f ↔ Refused lower seen part f := by
  unfold readNew
  constructor
  · intro h
    cases hr : readCode lower part with
    | error g =>
      rw [hr] at h
      cases h
      rcases readCode_eq_error_iff.mp hr with ⟨hno, rfl⟩ | ⟨hlower, n, hwritten, hfold⟩
      · exact .notInteger hno
      · exact .noFold hlower hwritten hfold
    | ok code =>
      simp only [hr] at h
      split at h
      · rename_i hmem
        cases h
        exact .duplicate (readCode_eq_ok_iff.mp hr) hmem
      · cases h
  · intro h
    cases h with
    | notInteger h => rw [readCode_eq_error_iff.mpr (Or.inl ⟨h, rfl⟩)]
    | noFold hlower h hfold => rw [readCode_eq_error_iff.mpr (Or.inr ⟨hlower, _, h, hfold⟩)]
    | duplicate h hmem => simp only [readCode_eq_ok_iff.mpr h, if_pos hmem]

/-! ## All parts -/

variable {seen codes : List Int} {rest texts : List (List Char)}

theorem readCodes_cons (lower : Bool) (seen : List Int) (part : List Char)
    (rest : List (List Char)) :
    readCodes lower seen (part :: rest) =
      match readNew lower seen part with
      | .error f => .error f
      | .ok code => readCodes lower (seen ++ [code]) rest := by
  unfold readNew
  rw [readCodes]
  cases readCode lower part with
  | error f => rfl
  | ok code =>
    by_cases hmem : code ∈ seen <;> simp [bind, Except.bind, hmem]

theorem readCodes_cons_of_reads (hreads : Reads lower part code) (hnew : code ∉ seen) :
    readCodes lower seen (part :: rest) = readCodes lower (seen ++ [code]) rest := by
  rw [readCodes_cons, readNew_eq_ok_iff.mpr ⟨hreads, hnew⟩]

theorem readCodes_cons_of_refused (h : Refused lower seen part f) :
    readCodes lower seen (part :: rest) = .error f := by
  rw [readCodes_cons, readNew_eq_error_iff.mpr h]

theorem reads_or_refused (lower : Bool) (seen : List Int) (part : List Char) :
    (∃ code, Reads lower part code ∧ code ∉ seen) ∨ ∃ f, Refused lower seen part f := by
  cases h : readNew lower seen part with
  | ok code => exact Or.inl ⟨code, readNew_eq_ok_iff.mp h⟩
  | error f => exact Or.inr ⟨f, readNew_eq_error_iff.mp h⟩

theorem nodup_concat (hseen : seen.Nodup) (hnew : code ∉ seen) : (seen ++ [code]).Nodup := by
  rw [← List.concat_eq_append]
  exact hseen.concat hnew

theorem notMem_of_nodup {new : List Int} (h : (seen ++ code :: new).Nodup) : code ∉ seen :=
  fun hmem => List.disjoint_of_nodup_append h hmem List.mem_cons_self

/-- The parts are accepted one after the other, each of them for a new code. -/
theorem readCodes_eq_ok_iff (hseen : seen.Nodup) :
    readCodes lower seen texts = .ok codes ↔
      ∃ new, codes = seen ++ new ∧ List.Forall₂ (Reads lower) texts new ∧ (seen ++ new).Nodup := by
  induction texts generalizing seen with
  | nil =>
    rw [readCodes]
    constructor
    · intro h
      cases h
      exact ⟨[], (List.append_nil _).symm, .nil, by rwa [List.append_nil]⟩
    · rintro ⟨new, rfl, hnew, _⟩
      cases hnew
      rw [List.append_nil]
  | cons part rest ih =>
    constructor
    · intro h
      rcases reads_or_refused lower seen part with ⟨code, hreads, hfresh⟩ | ⟨f, hrefused⟩
      · rw [readCodes_cons_of_reads hreads hfresh] at h
        obtain ⟨new, rfl, hnew, hnodup⟩ := (ih (nodup_concat hseen hfresh)).mp h
        rw [← List.append_cons] at hnodup ⊢
        exact ⟨code :: new, rfl, .cons hreads hnew, hnodup⟩
      · rw [readCodes_cons_of_refused hrefused] at h
        cases h
    · rintro ⟨_, rfl, hnew, hnodup⟩
      cases hnew with
      | @cons _ code _ new hreads hnew =>
        have hfresh := notMem_of_nodup hnodup
        have hsplit := List.append_cons seen code new
        rw [readCodes_cons_of_reads hreads hfresh]
        exact (ih (nodup_concat hseen hfresh)).mpr ⟨new, hsplit, hnew, hsplit ▸ hnodup⟩

/-- What is wrong with the first part that is refused decides. -/
theorem readCodes_eq_error_iff (hseen : seen.Nodup) :
    readCodes lower seen texts = .error f ↔
      ∃ before part after earlier, texts = before ++ part :: after ∧
        List.Forall₂ (Reads lower) before earlier ∧ (seen ++ earlier).Nodup ∧
        Refused lower (seen ++ earlier) part f := by
  induction texts generalizing seen with
  | nil =>
    constructor
    · nofun
    · rintro ⟨before, part, after, _, heq, _⟩
      cases before <;> cases heq
  | cons first rest ih =>
    constructor
    · intro h
      rcases reads_or_refused lower seen first with ⟨code, hreads, hfresh⟩ | ⟨g, hrefused⟩
      · rw [readCodes_cons_of_reads hreads hfresh] at h
        obtain ⟨before, part, after, earlier, rfl, hbefore, hnodup, hrefused⟩ :=
          (ih (nodup_concat hseen hfresh)).mp h
        rw [← List.append_cons] at hnodup hrefused
        exact ⟨first :: before, part, after, code :: earlier, rfl, .cons hreads hbefore, hnodup,
          hrefused⟩
      · rw [readCodes_cons_of_refused hrefused] at h
        cases h
        rw [← List.append_nil seen] at hseen hrefused
        exact ⟨[], first, rest, [], rfl, .nil, hseen, hrefused⟩
    · rintro ⟨before, part, after, earlier, heq, hbefore, hnodup, hrefused⟩
      cases hbefore with
      | nil =>
        cases heq
        rw [List.append_nil] at hrefused
        exact readCodes_cons_of_refused hrefused
      | @cons _ code before earlier hreads hbefore =>
        cases heq
        have hfresh := notMem_of_nodup hnodup
        rw [List.append_cons] at hnodup hrefused
        rw [readCodes_cons_of_reads hreads hfresh]
        exact (ih (nodup_concat hseen hfresh)).mpr
          ⟨before, part, after, earlier, rfl, hbefore, hnodup, hrefused⟩

/-! ## The whole text -/

variable {text : String} {m : Keymap}

/-- The parts of a text between its commas. -/
def parts (text : String) : List (List Char) := text.toList.splitOn ','

/-- The number of parts is judged first, and only then are they read. -/
theorem parse_cases (lower : Bool) (text : String) :
    ((parts text).length ≠ 16 ∧ parse lower text = .error .wrongCount) ∨
      ((parts text).length = 16 ∧
        ∃ f, readCodes lower [] (parts text) = .error f ∧ parse lower text = .error f) ∨
      ((parts text).length = 16 ∧
        ∃ m : Keymap, readCodes lower [] (parts text) = .ok m.codes.toList ∧
          parse lower text = .ok m) := by
  by_cases count : (parts text).length = 16
  · have count' : (text.toList.splitOn ',').length = 16 := count
    unfold parse
    simp only [dif_pos count']
    split
    · rename_i f accepted
      exact Or.inr (Or.inl ⟨count, f, accepted, rfl⟩)
    · rename_i codes accepted
      refine Or.inr (Or.inr ⟨count, _, ?_, rfl⟩)
      exact accepted
  · exact Or.inl ⟨count, dif_neg count⟩

theorem eq_of_codes {k m : Keymap} (h : k.codes.toList = m.codes.toList) : k = m := by
  cases k
  cases m
  cases Vector.toList_inj.mp h
  rfl

theorem parse_eq_ok_iff :
    parse lower text = .ok m ↔
      (parts text).length = 16 ∧ List.Forall₂ (Reads lower) (parts text) m.codes.toList := by
  have hread : readCodes lower [] (parts text) = .ok m.codes.toList ↔
      List.Forall₂ (Reads lower) (parts text) m.codes.toList := by
    rw [readCodes_eq_ok_iff List.nodup_nil]
    constructor
    · rintro ⟨new, hcodes, hnew, _⟩
      rwa [hcodes, List.nil_append]
    · exact fun h => ⟨_, rfl, h, m.nodup⟩
  rw [← hread]
  rcases parse_cases lower text with ⟨hcount, hparse⟩ | ⟨hcount, f, hf, hparse⟩ |
    ⟨hcount, k, hk, hparse⟩
  · rw [hparse]
    exact ⟨nofun, fun h => absurd h.1 hcount⟩
  · rw [hparse, hf]
    exact ⟨nofun, fun h => nomatch h.2⟩
  · rw [hparse, hk, Except.ok.injEq, Except.ok.injEq]
    exact ⟨fun h => ⟨hcount, congrArg (·.codes.toList) h⟩, fun h => eq_of_codes h.2⟩

/-- What is wrong with the text: it has another number of parts, or else the first part that is
refused decides. -/
theorem parse_eq_error_iff :
    parse lower text = .error f ↔
      ((parts text).length ≠ 16 ∧ f = .wrongCount) ∨
        ((parts text).length = 16 ∧ ∃ before part after earlier,
          parts text = before ++ part :: after ∧ List.Forall₂ (Reads lower) before earlier ∧
            earlier.Nodup ∧ Refused lower earlier part f) := by
  have hread : readCodes lower [] (parts text) = .error f ↔ _ :=
    readCodes_eq_error_iff List.nodup_nil
  simp only [List.nil_append] at hread
  rw [← hread]
  rcases parse_cases lower text with ⟨hcount, hparse⟩ | ⟨hcount, g, hg, hparse⟩ |
    ⟨hcount, k, hk, hparse⟩
  · rw [hparse]
    simp [hcount, eq_comm]
  · rw [hparse, hg]
    simp [hcount]
  · rw [hparse, hk]
    simp [hcount]

/-! ## What a keymap says -/

theorem get_injective (m : Keymap) : Function.Injective m.codes.get := by
  intro j k h
  have hlen : m.codes.toList.length = 16 := Vector.length_toList
  have hlist : m.codes.toList.get (j.cast hlen.symm) = m.codes.toList.get (k.cast hlen.symm) := h
  have hcast := Fin.ext_iff.mp (List.nodup_iff_injective_get.mp m.nodup hlist)
  exact Fin.ext hcast

theorem key?_eq_some_iff {k : Fin 16} : m.key? code = some k ↔ m.codes.get k = code := by
  have hkey : m.key? code =
      (m.codes.toArray.finIdxOf? code).map (Fin.cast m.codes.size_toArray) := rfl
  rw [hkey, Option.map_eq_some_iff]
  simp only [Array.finIdxOf?_eq_some_iff]
  constructor
  · rintro ⟨j, ⟨hj, _⟩, rfl⟩
    exact hj
  · intro hk
    refine ⟨k.cast m.codes.size_toArray.symm, ⟨hk, fun i hi hcode => ?_⟩, rfl⟩
    have hsame : i.cast m.codes.size_toArray = k := m.get_injective (hcode.trans hk.symm)
    exact absurd hi (by rw [← hsame]; exact Nat.lt_irrefl _)

theorem mem_entries {k : Fin 16} : (code, k) ∈ m.entries ↔ m.key? code = some k := by
  rw [key?_eq_some_iff, entries, List.mem_mergeSort, List.mem_map]
  constructor
  · rintro ⟨j, _, heq⟩
    cases heq
    rfl
  · rintro rfl
    exact ⟨k, List.mem_finRange k, rfl⟩

theorem length_entries (m : Keymap) : m.entries.length = 16 := by
  rw [entries, List.length_mergeSort, List.length_map, List.length_finRange]

theorem nodup_entries (m : Keymap) : (m.entries.map Prod.fst).Nodup := by
  have hperm : m.entries.Perm ((List.finRange 16).map fun k => (m.codes.get k, k)) :=
    List.mergeSort_perm _ _
  rw [(hperm.map Prod.fst).nodup_iff, List.map_map]
  exact (List.nodup_finRange 16).map m.get_injective

/-- In an accepted text the part with the number of a key stands for the code of that key. -/
theorem reads_part (h : parse lower text = .ok m) (k : Fin 16) :
    ∃ part, (parts text)[(k : Nat)]? = some part ∧ Reads lower part (m.codes.get k) := by
  obtain ⟨hcount, hreads⟩ := parse_eq_ok_iff.mp h
  have hlt : (k : Nat) < (parts text).length := by omega
  refine ⟨(parts text)[(k : Nat)], List.getElem?_eq_getElem hlt, ?_⟩
  exact hreads.get hlt (by simp)

theorem exists_keymap {codes : List Int} (hlen : codes.length = 16) (hnodup : codes.Nodup) :
    ∃ m : Keymap, m.codes.toList = codes :=
  ⟨⟨⟨codes.toArray, by simpa using hlen⟩, by simpa using hnodup⟩, rfl⟩

/-- A text is accepted exactly if it has sixteen parts that are numbers for sixteen different codes.
Then every key has one code, that of its part, and no code has two keys. If it is not accepted, the
number of parts is judged first, and then the first part that is refused decides. -/
theorem parse_exact (lower : Bool) (text : String) :
    ((∃ m, parse lower text = .ok m) ↔
      (parts text).length = 16 ∧
        ∃ codes, List.Forall₂ (Reads lower) (parts text) codes ∧ codes.Nodup) ∧
    (∀ m, parse lower text = .ok m →
      m.entries.length = 16 ∧ (m.entries.map Prod.fst).Nodup ∧
        (∀ code k, (code, k) ∈ m.entries ↔ m.key? code = some k) ∧
        ∀ k : Fin 16, ∃ part code, (parts text)[(k : Nat)]? = some part ∧
          Reads lower part code ∧ ∀ c, m.key? c = some k ↔ c = code) ∧
    (∀ f, parse lower text = .error f ↔
      ((parts text).length ≠ 16 ∧ f = .wrongCount) ∨
        ((parts text).length = 16 ∧ ∃ before part after earlier,
          parts text = before ++ part :: after ∧ List.Forall₂ (Reads lower) before earlier ∧
            earlier.Nodup ∧ Refused lower earlier part f)) := by
  refine ⟨?_, ?_, fun f => parse_eq_error_iff⟩
  · constructor
    · rintro ⟨m, hm⟩
      obtain ⟨hcount, hreads⟩ := parse_eq_ok_iff.mp hm
      exact ⟨hcount, _, hreads, m.nodup⟩
    · rintro ⟨hcount, codes, hreads, hnodup⟩
      obtain ⟨m, rfl⟩ := exists_keymap (hreads.length_eq.symm.trans hcount) hnodup
      exact ⟨m, parse_eq_ok_iff.mpr ⟨hcount, hreads⟩⟩
  · intro m hm
    refine ⟨m.length_entries, m.nodup_entries, fun _ _ => mem_entries, fun k => ?_⟩
    obtain ⟨part, hpart, hreads⟩ := reads_part hm k
    refine ⟨part, m.codes.get k, hpart, hreads, fun c => ?_⟩
    rw [key?_eq_some_iff, eq_comm]

/-! ## Faults that are no complaints -/

/-- Whether a fault is one of those that a keymap is refused with. The others come from the folding
of a code, and nothing makes a complaint about the keymap of them. -/
def Fault.foreseen : Fault → Bool
  | .wrongCount | .notInteger | .duplicate => true
  | .notCharacter _ | .tooLarge _ | .noSingleFold _ => false

/-- Folding fails for numbers of no character, and for the one without a single lower case. -/
theorem fold_error_iff :
    (∃ f, fold n = .error f) ↔ n < 0 ∨ characterCount ≤ n ∨ n = Text.dottedCapitalI := by
  unfold fold codeLimit characterCount Text.lowercase? Text.dottedCapitalI
  split
  · exact ⟨fun _ => by omega, fun _ => ⟨_, rfl⟩⟩
  · split
    · exact ⟨fun _ => by omega, fun _ => ⟨_, rfl⟩⟩
    · split
      · rename_i hsome
        split at hsome
        · cases hsome
        · exact ⟨fun ⟨_, h⟩ => (nomatch h), fun _ => by omega⟩
      · rename_i hnone
        split at hnone
        · exact ⟨fun _ => by omega, fun _ => ⟨_, rfl⟩⟩
        · split at hnone <;> cases hnone

theorem foreseen_of_fold (h : fold n = .error f) : f.foreseen = false := by
  unfold fold at h
  split at h
  · cases h
    rfl
  · split at h
    · cases h
      rfl
    · split at h <;> cases h
      rfl

theorem refused_unforeseen_iff {earlier : List Int} :
    (∃ f, Refused lower earlier part f ∧ f.foreseen = false) ↔
      lower = true ∧ ∃ n, Text.Written part n ∧
        (n < 0 ∨ characterCount ≤ n ∨ n = Text.dottedCapitalI) := by
  constructor
  · rintro ⟨f, hrefused, hf⟩
    cases hrefused with
    | notInteger _ => cases hf
    | noFold hlower h hfold => exact ⟨hlower, _, h, fold_error_iff.mp ⟨f, hfold⟩⟩
    | duplicate _ _ => cases hf
  · rintro ⟨hlower, n, hwritten, hn⟩
    obtain ⟨f, hfold⟩ := fold_error_iff.mpr hn
    exact ⟨f, .noFold hlower hwritten hfold, foreseen_of_fold hfold⟩

/-- A text is refused with no complaint about keymaps exactly if codes are folded, it has sixteen
parts, and the first part that is refused is the number of no character or of the one without a
single lower case. -/
theorem parse_unforeseen_iff (lower : Bool) (text : String) :
    (∃ f, parse lower text = .error f ∧ f.foreseen = false) ↔
      lower = true ∧ (parts text).length = 16 ∧ ∃ before part after earlier,
        parts text = before ++ part :: after ∧ List.Forall₂ (Reads lower) before earlier ∧
          earlier.Nodup ∧ ∃ n, Text.Written part n ∧
            (n < 0 ∨ characterCount ≤ n ∨ n = Text.dottedCapitalI) := by
  constructor
  · rintro ⟨f, hparse, hf⟩
    rcases parse_eq_error_iff.mp hparse with ⟨_, rfl⟩ | ⟨hcount, before, part, after, earlier,
      hsplit, hbefore, hnodup, hrefused⟩
    · cases hf
    · obtain ⟨hlower, hn⟩ := refused_unforeseen_iff.mp ⟨f, hrefused, hf⟩
      exact ⟨hlower, hcount, before, part, after, earlier, hsplit, hbefore, hnodup, hn⟩
  · rintro ⟨hlower, hcount, before, part, after, earlier, hsplit, hbefore, hnodup, hn⟩
    obtain ⟨f, hrefused, hf⟩ := refused_unforeseen_iff.mpr ⟨hlower, hn⟩
    exact ⟨f, parse_eq_error_iff.mpr (Or.inr ⟨hcount, before, part, after, earlier, hsplit,
      hbefore, hnodup, hrefused⟩), hf⟩

/-- A keymap of characters that begins with the number minus one. -/
def negativeCode : String := "-1,49,50,51,113,119,101,97,115,100,122,99,52,114,102,118"

theorem negativeCode_unforeseen :
    ¬ ∀ lower text, (∃ m, parse lower text = .ok m) ∨
      ∃ f, parse lower text = .error f ∧ f.foreseen = true := by
  intro h
  have hparse : parse true negativeCode = .error (.notCharacter (-1)) := rfl
  rcases h true negativeCode with ⟨m, hm⟩ | ⟨f, hf, hforeseen⟩
  · rw [hparse] at hm
    cases hm
  · rw [hparse] at hf
    cases hf
    cases hforeseen

end Chip8.Keymap
