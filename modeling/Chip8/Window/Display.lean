import Chip8.Display
import Chip8.Screen
import Chip8.Slice
import Chip8.Window.Call

/-!
The display in a window. The picture is kept in a buffer of its own size, three bytes for each
pixel, row by row, and is stretched to the window as a whole when it is shown.
-/

namespace Chip8.Window

structure Display where
  /-- The width of the window. -/
  scale : Extent
  width : Int
  height : Int
  rgb : Array UInt8

namespace Display

/-- The width of the window if none is asked for. -/
def defaultScale : Int := 512

def defaultCaption : String := "PeaChip Emulator"

/-- The bytes of a dark pixel. -/
def background : List UInt8 := [0x22, 0x22, 0x22]

/-- The bytes of a lit pixel. -/
def foreground : List UInt8 := [0xDD, 0xDD, 0xDD]

/-- The colours by number; a negative number counts from the end. -/
def colour? (c : Int) : Option (List UInt8) :=
  if c = 0 ∨ c = -2 then some background
  else if c = 1 ∨ c = -1 then some foreground
  else none

def bytesOf (lit : Bool) : List UInt8 := if lit then foreground else background

/-- The rows and columns of the lit pixels of an image, in the order of its bytes. Those of a
negative width are counted backwards. -/
def litPixels (rgb : Array UInt8) (width : Int) : List (Int × Int) :=
  ((List.range (rgb.size / 3)).filter fun k =>
    (rgb.extract (3 * k) (3 * k + 3)).toList == foreground).map fun (k : Nat) =>
      ((k : Int).fdiv width, (k : Int).fmod width)

/-- The size of the window: half as high as wide. -/
def windowSize (scale : Extent) : Extent × Extent := (scale, scale.half)

/-- Shows the picture if it has changed and there is one. -/
def refresh (d : Display) (changed : Bool) : List Call :=
  if changed && !d.rgb.isEmpty then
    let (w, h) := windowSize d.scale
    [.image d.rgb d.width d.height, .stretch w h, .place 0 0, .flip]
  else []

def checkResolution (room : Nat) (width height : Int) : Except Chip8.Display.Fault Unit := do
  (Capacity.checkLength (width * height)).mapError .capacity
  (Capacity.checkRow room ((width * height).toNat * background.length : Nat) 1).mapError .capacity

/-- Keeps the old picture, but takes it for one of another resolution. -/
def relabel (d : Display) (width height : Int) : Display :=
  { d with width := width, height := height }

/-- A dark picture of a new resolution, which is shown at once. -/
def setResolution (d : Display) (width height : Int) : Display × List Call :=
  let rgb := (List.replicate (width * height).toNat background).flatten.toArray
  let d := { d with width := width, height := height, rgb := rgb }
  (d, d.refresh true)

/-- The first calls, before a window has a size. -/
def greeting : List Call := [.openDisplay, .caption defaultCaption]

/-- The calls that open a window, before its width is looked at. -/
def openCalls (scale : Extent) : List Call :=
  let (w, h) := windowSize scale
  greeting ++ [.setMode w h]

/-- Opens a window. A width that is no number is refused before the window has a size; one that is
too small leaves it open. -/
def open? (wanted : Setting Extent) : Except Chip8.Display.Fault Display × List Call :=
  match Chip8.Display.chooseScale defaultScale wanted with
  | .error f => (.error f, greeting)
  | .ok scale =>
    match Chip8.Display.checkScale scale with
    | .error f => (.error f, openCalls scale)
    | .ok _ =>
      let (d, calls) := setResolution ⟨scale, 0, 0, #[]⟩ 0 0
      (.ok d, openCalls scale ++ calls)

/-- Asks for a new resolution. If the host cannot hold its picture, the old picture stays under the
new resolution and is not shown. -/
def requestResolution (d : Display) (room : Nat) (width height : Int) :
    Display × Except Chip8.Display.Fault (List Call) :=
  match checkResolution room width height with
  | .error f => (d.relabel width height, .error f)
  | .ok _ =>
    let (d, calls) := d.setResolution width height
    (d, .ok calls)

def overwrite (rgb : Array UInt8) (place : Nat) : List UInt8 → Array UInt8
  | [] => rgb
  | b :: rest => overwrite (rgb.setIfInBounds place b) (place + 1) rest

/-- Where a pixel starts in the buffer. Nothing keeps `x` below the width, so a pixel past the end
of a row is one of the next row; its three bytes must lie inside the buffer. -/
def place? (d : Display) (x y : Int) : Option Nat :=
  let start := (y * d.width + x) * 3
  let first := sliceEnd d.rgb.size start
  if sliceEnd d.rgb.size (start + 3) = first + 3 then some first else none

def paint (d : Display) (place : Nat) (bytes : List UInt8) : Display :=
  { d with rgb := overwrite d.rgb place bytes }

def setPixel (d : Display) (x y colour : Int) : Except Chip8.Display.Fault Display :=
  match colour? colour, d.place? x y with
  | none, _ => .error .noSuchColour
  | some _, none => .error .outside
  | some bytes, some place => .ok (d.paint place bytes)

/-- Lights or darkens a pixel if it lies inside the buffer. -/
def draw (d : Display) (w : Screen.PixelWrite) : Display :=
  match d.place? w.x w.y with
  | none => d
  | some place => d.paint place (bytesOf w.lit)

/-- Draws pixels one after the other, up to the first that lies outside. -/
def drawAll (d : Display) : List Screen.PixelWrite → Display × Option Chip8.Display.Fault
  | [] => (d, none)
  | w :: rest =>
    match d.place? w.x w.y with
    | none => (d, some .outside)
    | some place => (d.paint place (bytesOf w.lit)).drawAll rest

/-- Writes a whole picture to the buffer and shows it, unless a pixel lies outside. -/
def render (d : Display) (s : Screen) : Display × Except Chip8.Display.Fault (List Call) :=
  match d.drawAll s.pixelWrites with
  | (d, none) => (d, .ok (d.refresh true))
  | (d, some f) => (d, .error f)

def close : List Call := [.closeDisplay]

end Display

end Chip8.Window
