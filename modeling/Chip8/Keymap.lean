import Chip8.Text.Integer
import Chip8.Text.Lowercase

/-!
Which host key stands for which of the sixteen keys. A keymap is written as sixteen decimal codes
between commas, the code of key zero first, and no code may occur twice. A front end that works
with characters folds every code to lower case, so upper and lower case are one key.
-/

namespace Chip8

/-- The host code of each key. -/
structure Keymap where
  codes : Vector Int 16
  nodup : codes.toList.Nodup

namespace Keymap

inductive Fault
  | wrongCount
  | notInteger
  | duplicate
  /-- The code to be folded is no number that a character could have. -/
  | notCharacter (code : Int)
  /-- The code to be folded is even too large to be looked at. -/
  | tooLarge (code : Int)
  /-- The lower case of the code is more than one character. -/
  | noSingleFold (code : Int)
deriving DecidableEq

def Fault.message : Fault → String
  | .wrongCount =>
    "Incorrect number of keys defined -- 16 required.  Use commas to split numbers"
  | .notInteger => "Defined keys are not all integer values"
  | .duplicate => "Duplicate keys defined"
  | .notCharacter code => "Not a character code: " ++ toString code
  | .tooLarge code => "Too large for a character code: " ++ toString code
  | .noSingleFold code => "No single lower-case character: " ++ toString code

/-- The keymap of the standard keyboard, four keys in each of four rows. -/
def standard : String := "120,49,50,51,113,119,101,97,115,100,122,99,52,114,102,118"

def characterCount : Int := 0x110000

/-- Codes of at least this magnitude are not looked at. -/
def codeLimit : Int := 0x80000000

/-- The code of the lower-case form of a character. -/
def fold (code : Int) : Except Fault Int :=
  if code < -codeLimit ∨ codeLimit ≤ code then .error (.tooLarge code)
  else if code < 0 ∨ characterCount ≤ code then .error (.notCharacter code)
  else match Text.lowercase? code.toNat with
    | some lower => .ok lower
    | none => .error (.noSingleFold code)

/-- The code that a part of a keymap stands for. -/
def readCode (lower : Bool) (part : List Char) : Except Fault Int :=
  match Text.integer? part with
  | none => .error .notInteger
  | some code => if lower then fold code else .ok code

/-- The codes of parts, none of which may be one of `seen` or occur twice. -/
def readCodes (lower : Bool) (seen : List Int) : List (List Char) → Except Fault (List Int)
  | [] => .ok seen
  | part :: rest => do
    let code ← readCode lower part
    if code ∈ seen then .error .duplicate
    else readCodes lower (seen ++ [code]) rest

/-- Accepted codes are pairwise distinct, one for each part. -/
theorem readCodes_ok {lower : Bool} {seen codes : List Int} {parts : List (List Char)}
    (h : readCodes lower seen parts = .ok codes) (distinct : seen.Nodup) :
    codes.Nodup ∧ codes.length = seen.length + parts.length := by
  induction parts generalizing seen with
  | nil =>
    cases h
    exact ⟨distinct, rfl⟩
  | cons part rest ih =>
    unfold readCodes at h
    cases hc : readCode lower part with
    | error f => simp [hc, bind, Except.bind] at h
    | ok code =>
      simp only [hc, bind, Except.bind] at h
      split at h
      · cases h
      · rename_i fresh
        have distinct' : (seen ++ [code]).Nodup := by
          rw [List.nodup_append]
          refine ⟨distinct, by simp, ?_⟩
          intro a ha b hb
          rw [List.mem_singleton] at hb
          subst hb
          exact fun e => fresh (e ▸ ha)
        obtain ⟨hn, hl⟩ := ih h distinct'
        exact ⟨hn, by simp at hl ⊢; omega⟩

def parse (lower : Bool) (text : String) : Except Fault Keymap :=
  let parts := text.toList.splitOn ','
  if count : parts.length = 16 then
    match accepted : readCodes lower [] parts with
    | .error f => .error f
    | .ok codes =>
      have facts := readCodes_ok accepted List.nodup_nil
      .ok ⟨⟨codes.toArray, by simpa [count] using facts.2⟩, facts.1⟩
  else .error .wrongCount

def key? (m : Keymap) (code : Int) : Option (Fin 16) := m.codes.finIdxOf? code

/-- The codes in ascending order, each with its key. -/
def entries (m : Keymap) : List (Int × Fin 16) :=
  ((List.finRange 16).map fun k => (m.codes.get k, k)).mergeSort fun a b => a.1 ≤ b.1

end Keymap

end Chip8
