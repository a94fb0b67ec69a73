import Chip8.Proofs.Instruction.Encoding
import Chip8.Proofs.Instruction.Mnemonic
import Chip8.Proofs.Machine.Step
import Chip8.Proofs.Memory.History

/-! # Words, their instructions and their texts

A word is executed as the instruction that it is decoded to. So two words with the same text do the
same: either they are words of one instruction, or they shift one register to the right, and then
the register that their texts leave out is not looked at. What they leave differs in the word that
is noted and in its place in the line of a live trace. -/

namespace Chip8.Machine

open Instruction

variable {m : Machine} {inst inst' : Instruction} {word : Int}

/-! ## Words that are none of an instruction -/

theorem execute_ne_unknownOpcode (m : Machine) (inst : Instruction) (op : Opcode) :
    (m.execute inst).fault ≠ some (.unknownOpcode op) := by
  cases inst
  all_goals
    simp only [execute, drawSprite, skipOnKey]
    repeat' split
    all_goals simp [done, stopped]

theorem fault_executeWord_iff {op : Opcode} :
    (m.executeWord word).fault = some (.unknownOpcode op) ↔
      decode? (.ofInt word) = none ∧ op = .ofInt word := by
  cases hd : decode? (.ofInt word) with
  | none => simp [executeWord, hd, stopped, eq_comm]
  | some inst =>
    simp only [executeWord, hd, perform_eq, execute_ne_unknownOpcode, false_and,
      reduceCtorEq]

theorem unlisted_iff {op : Opcode} :
    (m.executeWord word).fault = some (.unknownOpcode op) ↔
      (Opcode.ofInt word).Unlisted ∧ (op.raw : Int) = word % 0x10000 := by
  rw [fault_executeWord_iff, decode?_eq_none_iff, ← Opcode.raw_ofInt]
  constructor
  · intro ⟨hunlisted, hop⟩
    exact ⟨hunlisted, by rw [hop]⟩
  · intro ⟨hunlisted, hraw⟩
    exact ⟨hunlisted, Opcode.eq_of_raw (Int.ofNat_inj.mp hraw)⟩

/-! ## The word at the program counter -/

theorem ofBytes?_eq (high low : UInt8) :
    Opcode.ofBytes? high.toNat low.toNat = some (.ofInt (high.toNat * 256 + low.toNat)) := by
  have hhigh := high.toNat_lt
  have hlow := low.toNat_lt
  unfold Opcode.ofBytes?
  rw [dif_pos ⟨⟨by omega, by omega⟩, by omega, by omega⟩]
  congr 1
  apply Opcode.eq_of_raw
  simp only [Opcode.ofInt]
  omega

/-- The bytes at the program counter and after it make up the word that is fetched. -/
theorem fetch_eq_ofBytes? (hpc : 0 ≤ m.pc) (hrun : m.halted = false) :
    ∃ high low word, m.memory.read m.pc = .ok high ∧ m.memory.read (m.pc + 1) = .ok low ∧
      m.fetch = .ok word ∧ Opcode.ofBytes? high.toNat low.toNat = some (.ofInt word) := by
  have hroom := halted_eq_false_iff.mp hrun
  have hnext : (m.pc + 1).toNat = m.pc.toNat + 1 := by omega
  refine ⟨m.memory.byteAt m.pc.toNat, m.memory.byteAt (m.pc.toNat + 1), m.word, ?_, ?_,
    fetch_eq hpc hrun, ofBytes?_eq _ _⟩
  · rw [Memory.read_eq, if_pos ⟨hpc, by omega⟩]
  · rw [Memory.read_eq, if_pos ⟨by omega, by omega⟩, hnext]

/-- Decoding looks at the low sixteen bits of a word and knows exactly the listed ones. What it
makes of them are the instructions whose operands fit their fields, and words that it makes the same
of are equal but for digits that are ignored. The word that is fetched is made of the bytes at the
program counter and after it. -/
theorem decoding_exact :
    (∀ word : Int, decode? (.ofInt word) = decode? (.ofInt (word % 0x10000)) ∧
      (decode? (.ofInt word) = none ↔ (Opcode.ofInt word).Unlisted) ∧
      ∀ (m : Machine) (op : Opcode), (m.executeWord word).fault = some (.unknownOpcode op) ↔
        (Opcode.ofInt word).Unlisted ∧ (op.raw : Int) = word % 0x10000) ∧
    (∀ inst, (∃ word : Int, decode? (.ofInt word) = some inst) ↔ inst.Encodable) ∧
    (∀ word word' : Int,
      (∃ inst, decode? (.ofInt word) = some inst ∧ decode? (.ofInt word') = some inst) ↔
        ¬ (Opcode.ofInt word).Unlisted ∧ (Opcode.ofInt word).Twin (.ofInt word')) ∧
    ∀ m : Machine, 0 ≤ m.pc → m.halted = false →
      ∃ high low word, m.memory.read m.pc = .ok high ∧ m.memory.read (m.pc + 1) = .ok low ∧
        m.fetch = .ok word ∧ Opcode.ofBytes? high.toNat low.toNat = some (.ofInt word) := by
  refine ⟨?_, ?_, ?_, ?_⟩
  · intro word
    rw [Opcode.ofInt_emod]
    exact ⟨rfl, decode?_eq_none_iff, fun m op => unlisted_iff⟩
  · intro inst
    exact exists_word_iff
  · intro word word'
    exact same_instruction_iff
  · intro m hpc hrun
    exact fetch_eq_ofBytes? hpc hrun

/-- Two bytes of memory, a traced machine, and the program counter on the first byte. -/
def twoBytes : Machine :=
  { initial ⟨#[0x12, 0x34]⟩ (CallStack.ofSize 0) (Screen.blank 8 1) true fun _ => 0 with pc := 0 }

/-- The two bytes are fetched as the word of a jump. -/
theorem decoding_exact_twoBytes :
    0 ≤ twoBytes.pc ∧ twoBytes.halted = false ∧
      ∃ word, twoBytes.fetch = .ok word ∧ Opcode.ofBytes? 0x12 0x34 = some (.ofInt word) := by
  have hpc : 0 ≤ twoBytes.pc := Int.le_refl 0
  have hrun : twoBytes.halted = false := rfl
  obtain ⟨high, low, word, hhigh, hlow, hfetch, hword⟩ := decoding_exact.2.2.2 twoBytes hpc hrun
  cases hhigh
  cases hlow
  exact ⟨hpc, hrun, word, hfetch, hword⟩

/-! ## Words with the same text -/

/-- The outcome with another word noted and, if the trace of `m` is live, shown with its text. -/
def Outcome.noting (out : Outcome) (m : Machine) (word : Int) (text : String) : Outcome :=
  out.withLog word m.live
    (if m.live then m.printed.push ({ m with opcode := word }.traceLine text) else m.printed)

theorem executeWord_eq_noting (hd : decode? (.ofInt word) = some inst) :
    m.executeWord word = (m.execute inst).noting m word inst.mnemonic := by
  simp only [executeWord, hd, perform_eq]
  exact execute_withLog m word m.live _ inst

theorem execute_eq_of_mnemonic (h : inst.mnemonic = inst'.mnemonic) :
    m.execute inst = m.execute inst' := by
  rcases mnemonic_eq_iff.mp h with rfl | ⟨x, y, y', rfl, rfl⟩
  · rfl
  · rfl

/-- Two instructions have the same text exactly if they are the same, or shift the same register to
the right. Words with the same text have the same outcome but for the word itself, where it is
noted and where it is shown. -/
theorem mnemonics_unambiguous :
    (∀ inst inst' : Instruction, inst.mnemonic = inst'.mnemonic ↔
      inst = inst' ∨ ∃ x y y', inst = .shiftRight x y ∧ inst' = .shiftRight x y') ∧
    ∀ (m : Machine) (word word' : Int) (inst inst' : Instruction),
      decode? (.ofInt word) = some inst → decode? (.ofInt word') = some inst' →
      inst.mnemonic = inst'.mnemonic →
      ∃ out : Outcome, m.executeWord word = out.noting m word inst.mnemonic ∧
        m.executeWord word' = out.noting m word' inst.mnemonic := by
  constructor
  · intro inst inst'
    exact mnemonic_eq_iff
  · intro m word word' inst inst' hd hd' htext
    refine ⟨m.execute inst, executeWord_eq_noting hd, ?_⟩
    rw [executeWord_eq_noting hd', execute_eq_of_mnemonic htext, htext]

/-- Two right shifts that name different second registers, in a live trace. -/
theorem mnemonics_unambiguous_shift :
    ∃ out : Outcome,
      twoBytes.executeWord 0x8126 =
          out.noting twoBytes 0x8126 (Instruction.shiftRight 1 2).mnemonic ∧
        twoBytes.executeWord 0x8136 =
          out.noting twoBytes 0x8136 (Instruction.shiftRight 1 2).mnemonic :=
  mnemonics_unambiguous.2 twoBytes 0x8126 0x8136 (.shiftRight 1 2) (.shiftRight 1 3) rfl rfl rfl

end Chip8.Machine
