import Chip8.Capacity

/-!
The picture that programs draw. Sprites are combined with it by exclusive or, and coordinates wrap
around the edges. A flag notes that the picture may have changed since it was last shown.
-/

namespace Chip8

/-- A rectangle of pixels, row by row. -/
structure Screen where
  width : Int
  height : Int
  pixels : Array Bool
  /-- Whether the picture was cleared or drawn to since it was last shown. -/
  redraw : Bool
  pixels_size : pixels.size = (width * height).toNat

namespace Screen

inductive Fault
  | zeroDimension
  | noPixels
deriving DecidableEq

def Fault.message : Fault → String
  | .zeroDimension => "A screen of width or height zero has no coordinates"
  | .noPixels => "The screen has no pixels"

def blank (width height : Int) : Screen where
  width := width
  height := height
  pixels := Array.replicate (width * height).toNat false
  redraw := false
  pixels_size := by simp

def pixelBytes : Nat := 8

def allocate (room : Nat) (width height : Int) : Except Capacity.Fault Screen :=
  (Capacity.checkRow room (width * height) pixelBytes).map fun _ => blank width height

def standardWidth : Int := 64

def standardHeight : Int := 32

def clear (s : Screen) : Screen :=
  { blank s.width s.height with redraw := true }

def markRedraw (s : Screen) : Screen := { s with redraw := true }

/-- Takes the flag down and says whether it was up. -/
def consumeRedraw (s : Screen) : Bool × Screen := (s.redraw, { s with redraw := false })

/-- The place of a pixel in the row-major order of a screen; both coordinates wrap around, with
the sign of the dimension, and a place below zero is counted from the end. -/
def place (s : Screen) (x y : Int) : Nat :=
  let k := y.fmod s.height * s.width + x.fmod s.width
  (if k < 0 then k + s.pixels.size else k).toNat

/-- What makes pixels of this screen unaddressable: a dimension of zero, or no pixels at all. -/
def fault? (s : Screen) : Option Fault :=
  if s.width = 0 ∨ s.height = 0 then some .zeroDimension
  else if s.pixels.size = 0 then some .noPixels
  else none

def lit (s : Screen) (x y : Int) : Bool := s.pixels.getD (s.place x y) false

def toggle (s : Screen) (x y : Int) : Screen :=
  { s with
    pixels := s.pixels.setIfInBounds (s.place x y) (!s.lit x y)
    pixels_size := by simp [s.pixels_size] }

def getPixel (s : Screen) (x y : Int) : Except Fault Bool :=
  match s.fault? with
  | some f => .error f
  | none => .ok (s.lit x y)

/-- Switches a pixel over and says whether it was lit. -/
def xorPixel (s : Screen) (x y : Int) : Except Fault (Bool × Screen) :=
  match s.fault? with
  | some f => .error f
  | none => .ok (s.lit x y, s.toggle x y)

/-- Whether column `c` of a sprite row is set; column zero is the highest bit. -/
def rowBit (row : UInt8) (c : Nat) : Bool := row.toNat.testBit (7 - c)

def spriteWidth : Nat := 8

/-- The points of a sprite placed at `x`, `y`, in drawing order. -/
def spritePoints (x y : Int) : List UInt8 → List (Int × Int)
  | [] => []
  | row :: rest =>
    ((List.range spriteWidth).filter (rowBit row)).map (fun (c : Nat) => (x + c, y))
      ++ spritePoints x (y + 1) rest

/-- Switches points over one by one and says whether one of them was lit when its turn came. -/
def toggleAll (s : Screen) : List (Int × Int) → Bool × Screen
  | [] => (false, s)
  | (x, y) :: rest =>
    let wasLit := s.lit x y
    let (collided, t) := (s.toggle x y).toggleAll rest
    (wasLit || collided, t)

/-- Draws a sprite and says whether a lit pixel was switched off. -/
def drawSprite (s : Screen) (x y : Int) (rows : List UInt8) : Except Fault (Bool × Screen) :=
  match spritePoints x y rows with
  | [] => .ok (false, s)
  | points =>
    match s.fault? with
    | some f => .error f
    | none => .ok (s.toggleAll points)

/-- One pixel handed to a display. -/
structure PixelWrite where
  x : Int
  y : Int
  lit : Bool
deriving DecidableEq

/-- All pixels in row-major order. -/
def pixelWrites (s : Screen) : List PixelWrite :=
  (List.range s.height.toNat).flatMap fun y =>
    (List.range s.width.toNat).map fun x =>
      ⟨(x : Nat), (y : Nat), s.pixels.getD (y * s.width.toNat + x) false⟩

def rows (s : Screen) : List (List Bool) :=
  let w := s.width.toNat
  (List.range s.height.toNat).map fun y => (s.pixels.extract (y * w) (y * w + w)).toList

/-- The picture as text, one line for each row. -/
def rowTexts (s : Screen) : List String :=
  s.rows.map fun row => String.ofList (row.map fun lit => if lit then '#' else '.')

/-- The rows that differ from those of an earlier picture of the same size, as text. -/
def changedRows (s earlier : Screen) : List (Nat × String) :=
  if earlier.pixels == s.pixels then []
  else ((earlier.rowTexts.zip s.rowTexts).zipIdx.filter fun ((a, b), _) => a != b).map
    fun ((_, text), y) => (y, text)

def litPlaces (s : Screen) : List Nat :=
  (List.range s.pixels.size).filter fun k => s.pixels.getD k false

end Screen

end Chip8
