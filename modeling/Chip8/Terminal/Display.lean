import Chip8.Display
import Chip8.Screen
import Chip8.Terminal.Call

/-!
The display in a text terminal. Every pixel is a run of blanks, as many as the scale, in reverse
video if it is lit. The first row of the pad holds the title, and a spare row and column keep the
cursor inside the pad. The pad is pushed only if something was written since the last push; after
a change of the terminal's size the screen is cleared and the push is left to the next refresh.
-/

namespace Chip8.Terminal

structure Display where
  /-- The scale in the form in which it was asked for. -/
  asked : Extent
  /-- The number of blanks in a pixel. -/
  scale : Int
  cursorMode : CursorMode
  width : Int
  height : Int
  /-- Whether the terminal can be told its new size. -/
  resizable : Bool
  /-- Whether something was written since the pad was last pushed. -/
  pending : Bool
  /-- The height and width of the terminal at the last refresh; minus one before the first. -/
  lastSize : Int × Int

namespace Display

/-- The scale if none is asked for: two blanks are about as wide as high. -/
def defaultScale : Int := 2

def defaultCursorMode : CursorMode := .hidden

def setResolution (d : Display) (width height : Int) : Display × List Call :=
  ({ d with width := width, height := height },
    [.newPad (height + 2) (width * d.scale + 1)])

/-- The calls that take over the terminal, before the scale is looked at. -/
def takeOver (cursorMode : CursorMode) : List Call :=
  [.start, .echoOff, .lineBufferOff, .cursor cursorMode]

/-- The scale that is asked for and the number of blanks in a pixel of it, if such a pixel can be
written down. -/
def chooseScale (room : Nat) (wanted : Setting Extent) :
    Except Chip8.Display.Fault (Extent × Int) := do
  let asked ← Chip8.Display.chooseScale defaultScale wanted
  match asked.count? with
  | none => .error .wrongKind
  | some scale =>
    (Capacity.checkRow room scale 1).mapError .capacity
    return (asked, scale)

/-- Takes over the terminal. A scale of which no pixel can be written down is refused before
anything is done; one that is too small leaves the terminal taken over. -/
def open? (room : Nat) (wanted : Setting Extent) (cursorMode : CursorMode) (resizable : Bool) :
    Except Chip8.Display.Fault Display × List Call :=
  match chooseScale room wanted with
  | .error f => (.error f, [])
  | .ok (asked, scale) =>
    match Chip8.Display.checkScale asked with
    | .error f => (.error f, takeOver cursorMode)
    | .ok _ =>
      let (d, calls) :=
        setResolution ⟨asked, scale, cursorMode, 0, 0, resizable, false, (-1, -1)⟩ 0 0
      (.ok d, takeOver cursorMode ++ calls)

def pixelText (d : Display) : String := String.ofList (List.replicate d.scale.toNat ' ')

def setPixel (d : Display) (x y : Int) (lit : Bool) : List Call :=
  [.writePad (y + 1) (x * d.scale) d.pixelText lit]

/-- A title cut or filled up with blanks to a number of characters; a negative number is a number
of characters to be cut off at the end. -/
def fitTitle (columns : Int) (title : List Char) : List Char :=
  let cut := if columns < 0 then title.take (title.length + columns).toNat
    else title.take columns.toNat
  cut ++ List.replicate (columns - cut.length).toNat ' '

def titleWidth (d : Display) : Int := d.width * d.scale

def checkTitle (d : Display) (room : Nat) : Except Chip8.Display.Fault Unit :=
  (Capacity.checkRow room d.titleWidth 1).mapError .capacity

def setTitle (d : Display) (title : String) : Display × List Call :=
  let text := fitTitle d.titleWidth title.toList
  ({ d with pending := true }, [.writePad 0 0 (String.ofList text) true])

/-- Brings the screen up to date, given the terminal's present height and width. -/
def refresh (d : Display) (changed : Bool) (size : Int × Int) : Display × List Call :=
  let pending := d.pending || changed
  if size = d.lastSize then
    if pending then ({ d with pending := false }, [.pushPad (size.1 - 1) (size.2 - 1)])
    else ({ d with pending := false }, [])
  else
    ({ d with pending := true, lastSize := size },
      [.clearScreen] ++ (if d.resizable then [.resize size.1 size.2] else []) ++ [.refreshScreen])

/-- Writes a whole picture to the pad and has it shown. -/
def render (d : Display) (s : Screen) (size : Int × Int) : Display × List Call :=
  let (d', shown) := d.refresh true size
  (d', (s.pixelWrites.flatMap fun w => d.setPixel w.x w.y w.lit) ++ shown)

/-- Gives the terminal back. -/
def close (d : Display) : List Call :=
  [.lineBufferOn, .echoOn] ++
    (if d.cursorMode.isNormal then [] else [.cursor .normal]) ++ [.finish]

end Display

end Chip8.Terminal
