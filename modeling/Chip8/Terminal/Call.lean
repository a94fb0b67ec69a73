import Chip8.Extent

/-!
What is asked of a text terminal. The picture is written to a pad, which is larger than the screen
may be, and becomes visible when the pad is pushed to the screen.
-/

namespace Chip8.Terminal

inductive CursorMode
  | level (n : Extent)
  /-- Anything that is no number, as it is written. -/
  | other (text : String)
deriving DecidableEq

namespace CursorMode

def hidden : CursorMode := .level (.whole 0)

def normal : CursorMode := .level (.whole 1)

def isNormal : CursorMode → Bool
  | .level n => n.isOne
  | .other _ => false

end CursorMode

inductive Call
  | start
  | echoOff
  | echoOn
  /-- Characters arrive one by one, without waiting for the end of a line. -/
  | lineBufferOff
  | lineBufferOn
  | cursor (mode : CursorMode)
  | newPad (height width : Int)
  | writePad (row column : Int) (text : String) (reverse : Bool)
  /-- Shows the pad from its upper left corner on, down to this row and column of the screen. -/
  | pushPad (bottom right : Int)
  | clearScreen
  | resize (height width : Int)
  | refreshScreen
  | bell
  | finish
deriving DecidableEq

end Chip8.Terminal
