import Chip8.Machine
import Chip8.Memory

/-!
Programs and where they go in memory: sixteen digit sprites at the bottom, the program at `0x200`,
zeros elsewhere. A program is accepted if it fits between its start and the end of 4096 bytes.
-/

namespace Chip8.Rom

def memorySize : Nat := 0x1000

def maxLength : Nat := 3584

def fontStart : Int := 0

/-- The sprites of the hexadecimal digits, five rows each. -/
def font : List UInt8 := [
  0xF0, 0x90, 0x90, 0x90, 0xF0,
  0x20, 0x60, 0x20, 0x20, 0x70,
  0xF0, 0x10, 0xF0, 0x80, 0xF0,
  0xF0, 0x10, 0xF0, 0x10, 0xF0,
  0x90, 0x90, 0xF0, 0x10, 0x10,
  0xF0, 0x80, 0xF0, 0x10, 0xF0,
  0xF0, 0x80, 0xF0, 0x90, 0xF0,
  0xF0, 0x10, 0x20, 0x40, 0x40,
  0xF0, 0x90, 0xF0, 0x90, 0xF0,
  0xF0, 0x90, 0xF0, 0x10, 0xF0,
  0xF0, 0x90, 0xF0, 0x90, 0x90,
  0xE0, 0x90, 0xE0, 0x90, 0xE0,
  0xF0, 0x80, 0x80, 0x80, 0xF0,
  0xE0, 0x90, 0x90, 0x90, 0xE0,
  0xF0, 0x80, 0xF0, 0x80, 0xF0,
  0xF0, 0x80, 0xF0, 0x80, 0x80]

/-- The length of the longest prefix of a file that is looked at. -/
def readLimit : Nat := maxLength + 1

inductive Fault
  | notFound
  | isDirectory
  | notDirectory
  | nameTooLong
  /-- The name holds a character that no file name can hold, or is a negative number. -/
  | badName
  | notOpen (number : Int)
  /-- It is nothing that a file is known by. -/
  | noFile
  /-- What is to be stored has no room there. -/
  | noSpace
  | tooLarge (name : String)
deriving DecidableEq

def Fault.message : Fault → String
  | .notFound => "No such file or directory"
  | .isDirectory => "Is a directory"
  | .notDirectory => "Not a directory"
  | .nameTooLong => "File name too long"
  | .badName => "Not a file name"
  | .notOpen number => "No open file has the number " ++ toString number
  | .noFile => "No file"
  | .noSpace => "No space left"
  | .tooLarge name =>
    "ROM '" ++ name ++ "' is too large.  At most " ++ toString maxLength ++ " bytes can be loaded."

/-- The program in a file, which must not be too long. One byte more than the limit is read. -/
def ofFile (name : String) (content : List UInt8) : Except Fault (List UInt8) :=
  let bytes := content.take readLimit
  if maxLength < bytes.length then .error (.tooLarge name) else .ok bytes

/-- The program of a name, where `read` gives the content of a name. -/
def load (read : String → Except Fault (List UInt8)) (name : String) :
    Except Fault (List UInt8) := do
  ofFile name (← read name)

/-- Stores the font and then the program. A fault in the program leaves the font in place. -/
def install (m : Memory) (program : List UInt8) : Memory × Option Memory.Fault :=
  match m.writeBlock fontStart font with
  | .error f => (m, some f)
  | .ok m =>
    match m.writeBlock Machine.programStart program with
    | .error f => (m, some f)
    | .ok m => (m, none)

end Chip8.Rom
