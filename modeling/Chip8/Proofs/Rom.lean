import Chip8.Machine.Boot
import Chip8.Proofs.Memory

/-! # Programs in files and in memory

The length of a program and the bounds of memory are tested in two places. A file is accepted
exactly if it fits between the start of programs and the end of the standard memory, so what was
accepted is installed as a whole. In a memory of another size the sprites or the program may be
refused, and then nothing of what was refused is stored. -/

namespace Chip8.Rom

/-! ## Installing -/

variable {n : Nat} {program : List UInt8}

/-- The byte at an address: of the program, else of the font, else zero. -/
def imageAt (program : List UInt8) (a : Nat) : UInt8 :=
  if 0x200 ≤ a ∧ a < 0x200 + program.length then program.getD (a - 0x200) 0 else font.getD a 0

/-- The sprites, zeros up to the start of programs, the program, and zeros to the end. -/
def image (size : Nat) (program : List UInt8) : List UInt8 :=
  font ++ List.replicate (min size 0x200 - font.length) 0 ++ program ++
    List.replicate (size - (0x200 + program.length)) 0

theorem imageAt_add {k : Nat} (hk : k < program.length) :
    imageAt program (0x200 + k) = program.getD k 0 := by
  unfold imageAt
  rw [if_pos (by omega), Nat.add_sub_cancel_left]

theorem length_font : font.length = 80 := rfl

/-- There is nothing but the sprites without a program. -/
theorem image_nil (n : Nat) : image n [] = font ++ List.replicate (n - font.length) 0 := by
  have hcount : min n 0x200 - font.length + (n - 0x200) = n - font.length := by
    rw [length_font]
    omega
  rw [image, List.append_nil, List.append_assoc, List.replicate_append_replicate, List.length_nil,
    Nat.add_zero, hcount]

theorem size_install (memory : Memory) (program : List UInt8) :
    (install memory program).1.size = memory.size := by
  unfold install
  split
  · rfl
  · rename_i font hfont
    have hsize := Memory.size_of_writeBlock hfont
    split
    · exact hsize
    · rename_i hprogram
      exact (Memory.size_of_writeBlock hprogram).trans hsize

theorem writeBlock_font (h : font.length ≤ n) :
    (Memory.zeros n).writeBlock fontStart font = .ok ((Memory.zeros n).setBlock 0 font) :=
  Memory.writeBlock_of_le (a := 0) (by rw [Memory.size_zeros, Nat.zero_add]; exact h)

theorem install_of_fits (h : font.length ≤ n) (fits : program = [] ∨ 0x200 + program.length ≤ n) :
    install (Memory.zeros n) program =
      (((Memory.zeros n).setBlock 0 font).setBlock 0x200 program, none) := by
  have hprogram : ((Memory.zeros n).setBlock 0 font).writeBlock Machine.programStart program =
      .ok (((Memory.zeros n).setBlock 0 font).setBlock 0x200 program) := by
    rcases fits with rfl | fits
    · rw [Memory.writeBlock_nil, Memory.setBlock_nil]
    · exact Memory.writeBlock_of_le (a := 0x200)
        (by rw [Memory.size_setBlock, Memory.size_zeros]; exact fits)
  simp only [install, writeBlock_font h, hprogram]

theorem install_of_no_font (h : n < font.length) (program : List UInt8) :
    ∃ address, install (Memory.zeros n) program =
      (Memory.zeros n, some (.outOfRange address)) := by
  obtain ⟨address, hfont⟩ := Memory.writeBlock_refused (m := Memory.zeros n) (a := fontStart)
    (by decide : font ≠ []) (by rw [Memory.size_zeros, fontStart]; omega)
  refine ⟨address, ?_⟩
  simp only [install, hfont]

theorem install_of_no_room (h : font.length ≤ n) (hprogram : program ≠ [])
    (hroom : n < 0x200 + program.length) :
    ∃ address, install (Memory.zeros n) program =
      ((Memory.zeros n).setBlock 0 font, some (.outOfRange address)) := by
  obtain ⟨address, hrefused⟩ := Memory.writeBlock_refused
    (m := (Memory.zeros n).setBlock 0 font) (a := Machine.programStart) hprogram
    (by rw [Memory.size_setBlock, Memory.size_zeros, Machine.programStart]; omega)
  refine ⟨address, ?_⟩
  simp only [install, writeBlock_font h, hrefused]

/-- A program that fits is installed. -/
theorem install_zeros (fits : 0x200 + program.length ≤ n) :
    (install (Memory.zeros n) program).2 = none ∧
      ∀ a, (install (Memory.zeros n) program).1.byteAt a = imageAt program a := by
  rw [install_of_fits (by rw [length_font]; omega) (Or.inr fits)]
  refine ⟨rfl, ?_⟩
  intro a
  unfold imageAt
  rw [Memory.byteAt_setBlock _ a (by rw [Memory.size_setBlock, Memory.size_zeros]; exact fits)]
  split
  · rfl
  · rw [Memory.byteAt_setBlock _ a (by rw [Memory.size_zeros]; simp [font]; omega)]
    split
    · rw [Nat.sub_zero]
    · rename_i hout
      rw [Memory.byteAt_zeros, List.getD_eq_getElem?_getD, List.getElem?_eq_none (by omega)]
      rfl

/-! ## The whole memory, in order -/

theorem toList_font (h : font.length ≤ n) :
    ((Memory.zeros n).setBlock 0 font).cells.toList = image n [] := by
  rw [image_nil]
  apply Memory.toList_setBlock [] (List.replicate font.length 0)
  · rw [Memory.toList_zeros, List.nil_append, List.replicate_append_replicate,
      Nat.add_sub_cancel' h]
  · exact List.length_replicate

theorem toList_program (h : font.length ≤ n) (fits : program = [] ∨ 0x200 + program.length ≤ n) :
    (((Memory.zeros n).setBlock 0 font).setBlock 0x200 program).cells.toList =
      image n program := by
  rcases fits with rfl | fits
  · rw [Memory.setBlock_nil, toList_font h]
  · have hfront : (font ++ List.replicate (0x200 - font.length) (0 : UInt8)).length = 0x200 := by
      rw [List.length_append, List.length_replicate, length_font]
    have hsplit : 0x200 - font.length + (program.length + (n - (0x200 + program.length))) =
        n - font.length := by
      rw [length_font]
      omega
    have hset := Memory.toList_setBlock (m := (Memory.zeros n).setBlock 0 font)
      (font ++ List.replicate (0x200 - font.length) 0) (List.replicate program.length 0)
      (List.replicate (n - (0x200 + program.length)) 0) program
      (by rw [toList_font h, image_nil, List.append_assoc, List.append_assoc,
        List.replicate_append_replicate, List.replicate_append_replicate, hsplit])
      List.length_replicate
    rw [hfront] at hset
    rw [image, Nat.min_eq_right (Nat.le_trans (Nat.le_add_right _ _) fits), hset]

/-! ## Files -/

variable {read : String → Except Fault (List UInt8)} {name : String} {content : List UInt8}

/-- One byte more than the limit is read, and that is enough to tell. -/
theorem ofFile_eq (name : String) (content : List UInt8) :
    ofFile name content =
      if content.length ≤ maxLength then .ok content else .error (.tooLarge name) := by
  unfold ofFile readLimit
  by_cases hlen : content.length ≤ maxLength
  · rw [List.take_of_length_le (by omega), if_neg (by omega), if_pos hlen]
  · rw [if_pos (by rw [List.length_take]; omega), if_neg hlen]

theorem load_eq (hread : read name = .ok content) :
    load read name =
      if content.length ≤ maxLength then .ok content else .error (.tooLarge name) := by
  rw [← ofFile_eq]
  unfold load
  rw [hread]
  rfl

/-- What is accepted is the file, and it is not too long. -/
theorem length_le_of_load (hread : read name = .ok content) (h : load read name = .ok program) :
    program = content ∧ program.length ≤ maxLength := by
  rw [load_eq hread] at h
  split at h
  · cases h
    exact ⟨rfl, by assumption⟩
  · cases h

/-! ## From a file into memory -/

/-- The sprites do not fit, or there is a program and it does not fit. -/
def NoRoom (size : Int) (program : List UInt8) : Prop :=
  size < font.length ∨ program ≠ [] ∧ size < 0x200 + program.length

/-- The three ways of an installation in a new memory. -/
theorem install_cases (n : Nat) (program : List UInt8) :
    (¬ NoRoom n program ∧ (install (Memory.zeros n) program).2 = none ∧
      (install (Memory.zeros n) program).1.cells.toList = image n program) ∨
    (n < font.length ∧
      (∃ address, (install (Memory.zeros n) program).2 = some (.outOfRange address)) ∧
      (install (Memory.zeros n) program).1.cells.toList = List.replicate n 0) ∨
    (font.length ≤ n ∧ NoRoom n program ∧
      (∃ address, (install (Memory.zeros n) program).2 = some (.outOfRange address)) ∧
      (install (Memory.zeros n) program).1.cells.toList = image n []) := by
  by_cases hfont : n < font.length
  · obtain ⟨address, hi⟩ := install_of_no_font hfont program
    rw [hi]
    exact Or.inr (Or.inl ⟨hfont, ⟨address, rfl⟩, Memory.toList_zeros n⟩)
  · have hle := Nat.le_of_not_lt hfont
    by_cases hroom : program ≠ [] ∧ n < 0x200 + program.length
    · obtain ⟨address, hi⟩ := install_of_no_room hle hroom.1 hroom.2
      rw [hi]
      refine Or.inr (Or.inr ⟨hle, Or.inr ⟨hroom.1, ?_⟩, ⟨address, rfl⟩, toList_font hle⟩)
      exact Int.ofNat_lt.mpr hroom.2
    · have fits : program = [] ∨ 0x200 + program.length ≤ n := by
        by_cases hnil : program = []
        · exact Or.inl hnil
        · exact Or.inr (Nat.le_of_not_lt fun hlt => hroom ⟨hnil, hlt⟩)
      rw [install_of_fits hle fits]
      refine Or.inl ⟨?_, rfl, toList_program hle fits⟩
      rintro (hlt | ⟨hnil, hlt⟩)
      · exact hfont (Int.ofNat_lt.mp hlt)
      · exact hroom ⟨hnil, Int.ofNat_lt.mp hlt⟩

theorem install_ne_none_iff (n : Nat) (program : List UInt8) :
    (install (Memory.zeros n) program).2 ≠ none ↔ NoRoom n program := by
  rcases install_cases n program with
    ⟨hroom, hnone, _⟩ | ⟨hfont, ⟨_, hsome⟩, _⟩ | ⟨_, hroom, ⟨_, hsome⟩, _⟩
  · exact iff_of_false (fun h => h hnone) hroom
  · exact iff_of_true (hsome ▸ Option.some_ne_none _) (Or.inl (Int.ofNat_lt.mpr hfont))
  · exact iff_of_true (hsome ▸ Option.some_ne_none _) hroom

theorem eq_outOfRange_of_install {f : Memory.Fault}
    (h : (install (Memory.zeros n) program).2 = some f) : ∃ address, f = .outOfRange address := by
  rcases install_cases n program with
    ⟨_, hnone, _⟩ | ⟨_, ⟨address, hsome⟩, _⟩ | ⟨_, _, ⟨address, hsome⟩, _⟩
  · rw [hnone] at h
    cases h
  · exact ⟨address, Option.some.inj (h.symm.trans hsome)⟩
  · exact ⟨address, Option.some.inj (h.symm.trans hsome)⟩

theorem toList_install_of_none (h : (install (Memory.zeros n) program).2 = none) :
    (install (Memory.zeros n) program).1.cells.toList = image n program := by
  rcases install_cases n program with
    ⟨_, _, hlist⟩ | ⟨_, ⟨_, hsome⟩, _⟩ | ⟨_, _, ⟨_, hsome⟩, _⟩
  · exact hlist
  · rw [h] at hsome
    cases hsome
  · rw [h] at hsome
    cases hsome

theorem toList_install_of_no_font (h : n < font.length) (program : List UInt8) :
    (install (Memory.zeros n) program).1.cells.toList = List.replicate n 0 := by
  obtain ⟨_, hi⟩ := install_of_no_font h program
  rw [hi, Memory.toList_zeros]

theorem toList_install_of_refused (hfont : font.length ≤ n)
    (h : (install (Memory.zeros n) program).2 ≠ none) :
    (install (Memory.zeros n) program).1.cells.toList = image n [] := by
  rcases install_cases n program with ⟨_, hnone, _⟩ | ⟨hlt, _, _⟩ | ⟨_, _, _, hlist⟩
  · exact absurd hnone h
  · exact absurd hlt (Nat.not_lt.mpr hfont)
  · exact hlist

/-- What was accepted has room in the standard memory. -/
theorem boot_of_load (h : load read name = .ok program) (hread : read name = .ok content)
    (live : Bool) (random : Nat → Int) :
    (install (Memory.zeros memorySize) program).2 = none ∧
      (Machine.boot program live random).memory.cells.toList = image memorySize program ∧
      (Machine.boot program live random).memory.blockAt 0x200 program.length = program := by
  have hlen := (length_le_of_load hread h).2
  have fits : 0x200 + program.length ≤ memorySize := by
    unfold maxLength at hlen
    unfold memorySize
    omega
  have hfont : font.length ≤ memorySize := by decide
  have hmemory : (Machine.boot program live random).memory =
      (install (Memory.zeros memorySize) program).1 := by
    simp only [Machine.boot, Machine.initial]
  rw [hmemory, install_of_fits hfont (Or.inr fits)]
  refine ⟨rfl, toList_program hfont (Or.inr fits), ?_⟩
  have hstart : (0x200 : Int).toNat = 0x200 := rfl
  have hblock : (((Memory.zeros memorySize).setBlock 0 font).setBlock (0x200 : Int).toNat
      program).blockAt 0x200 program.length = program := Memory.blockAt_setBlock
    (by rw [hstart, Memory.size_setBlock, Memory.size_zeros]; exact fits)
  rwa [hstart] at hblock

/-- A file of at most 3584 bytes is accepted as it is, and a longer one is refused. An installation
in a memory of any size is refused exactly if the sprites or the program have no room; the memory
then holds the sprites if they have room, and nothing else. What was accepted always has room in
the memory of the standard machine, which holds all of it. -/
theorem load_install_exact (hread : read name = .ok content) {size : Int} {m : Memory}
    (hm : Memory.resize size = .ok m) (program : List UInt8) :
    let installed := install m program
    (load read name =
      if content.length ≤ 3584 then .ok content else .error (.tooLarge name)) ∧
    (installed.2 ≠ none ↔ size < 80 ∨ program ≠ [] ∧ size < 512 + program.length) ∧
    (∀ f, installed.2 = some f → ∃ address, f = .outOfRange address) ∧
    (installed.2 = none → installed.1.cells.toList = image size.toNat program) ∧
    (size < 80 → installed.1.cells.toList = List.replicate size.toNat 0) ∧
    (80 ≤ size → installed.2 ≠ none → installed.1.cells.toList = image size.toNat []) ∧
    (load read name = .ok program → ∀ live random,
      (install (Memory.zeros memorySize) program).2 = none ∧
      (Machine.boot program live random).memory.cells.toList = image memorySize program ∧
      (Machine.boot program live random).memory.blockAt 0x200 program.length = program) := by
  unfold Memory.resize at hm
  split at hm
  · cases hm
  · rename_i hpos
    obtain ⟨n, rfl⟩ := Int.eq_ofNat_of_zero_le (Int.not_lt.mp hpos)
    cases hm
    intro installed
    refine ⟨load_eq hread, install_ne_none_iff n program, fun _ => eq_outOfRange_of_install,
      toList_install_of_none, ?_, ?_, fun h => boot_of_load h hread⟩
    · exact fun hlt => toList_install_of_no_font (Int.ofNat_lt.mp hlt) program
    · exact fun hle => toList_install_of_refused (Int.ofNat_le.mp hle)

/-- The longest file is accepted. It fills the standard memory, and one byte less has no room. -/
theorem load_install_atLimit :
    let content : List UInt8 := List.replicate 3584 1
    let read : String → Except Fault (List UInt8) := fun _ => .ok content
    (read "rom" = .ok content ∧ Memory.resize 4095 = .ok (Memory.zeros 4095)) ∧
      load read "rom" = .ok content ∧
      (install (Memory.zeros 4095) content).2 ≠ none ∧
      (install (Memory.zeros 4095) content).1.cells.toList = image 4095 [] ∧
      (install (Memory.zeros memorySize) content).2 = none ∧
      (Machine.boot content false fun _ => 0).memory.blockAt 0x200 content.length = content := by
  intro content read
  have hlen : content.length = 3584 := List.length_replicate
  have hread : read "rom" = .ok content := rfl
  have hsize : Memory.resize 4095 = .ok (Memory.zeros 4095) := rfl
  clear_value read content
  obtain ⟨hload, hfault, _, _, _, hfont, hboot⟩ := load_install_exact hread hsize content
  rw [if_pos (Nat.le_of_eq hlen)] at hload
  have hno : (install (Memory.zeros 4095) content).2 ≠ none := by
    refine hfault.mpr (Or.inr ⟨?_, ?_⟩)
    · rintro rfl
      cases hlen
    · rw [hlen]
      decide
  obtain ⟨hnone, _, hblock⟩ := hboot hload false fun _ => 0
  exact ⟨⟨hread, hsize⟩, hload, hno, hfont (by decide) hno, hnone, hblock⟩

end Chip8.Rom
