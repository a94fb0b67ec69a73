import Chip8.Extent
import Chip8.Setting

/-!
What a user can ask for when a program is started.
-/

namespace Chip8

inductive FrontEndKind
  | window
  | terminal
  | headless
deriving DecidableEq

namespace FrontEndKind

/-- All kinds, in the order in which users are told of them. -/
def all : List FrontEndKind := [.window, .terminal, .headless]

def name : FrontEndKind → String
  | .window => "pygame"
  | .terminal => "curses"
  | .headless => "null"

def ofName? (text : String) : Option FrontEndKind := all.find? fun kind => kind.name = text

end FrontEndKind

/-- What a program may be read from. -/
inductive ProgramFile
  | path (name : String)
  /-- A file that is already open, by its number. -/
  | descriptor (number : Int)
  /-- Anything else that a host may know a file by, as it is written. -/
  | other (shown : String)
deriving DecidableEq

/-- How it is written in a message. -/
def ProgramFile.shown : ProgramFile → String
  | .path name => name
  | .descriptor number => toString number
  | .other shown => shown

structure Options where
  filename : Setting ProgramFile
  renderer : Setting String
  scale : Setting Extent
  /-- Whether to be silent: any number but zero, or anything else that is not empty. -/
  mute : Setting Int
  keymap : Setting String
  /-- Whether to print every instruction before it is executed. -/
  debug : Setting Bool
deriving DecidableEq

end Chip8
