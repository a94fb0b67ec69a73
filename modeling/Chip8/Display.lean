import Chip8.Capacity
import Chip8.Extent
import Chip8.Setting

/-!
What all displays have in common: a scale of at least one and a resolution in pixels that starts
at nothing. The headless display has no more than that and shows nothing.
-/

namespace Chip8.Display

inductive Fault
  | scaleTooSmall
  /-- The scale is no number, or is a fraction where only whole numbers will do. -/
  | wrongKind
  /-- The host cannot hold a pixel, a title or a picture of this size. -/
  | capacity (fault : Capacity.Fault)
  /-- The pixel lies beyond the end of the picture. -/
  | outside
  | noSuchColour
deriving DecidableEq

def Fault.message : Fault → String
  | .scaleTooSmall => "Scale must be at least 1."
  | .wrongKind => "The scale is no number of the right kind."
  | .capacity f => f.message
  | .outside => "No such pixel"
  | .noSuchColour => "No such colour"

/-- The scale that is asked for, or else the standard one. -/
def chooseScale (standard : Int) : Setting Extent → Except Fault Extent
  | .given scale => .ok scale
  | .foreign _ => .error .wrongKind
  | _ => .ok (.whole standard)

def checkScale (scale : Extent) : Except Fault Unit :=
  if scale.belowOne then .error .scaleTooSmall else .ok ()

/-- A display without a picture. -/
structure Headless where
  scale : Extent
  width : Extent
  height : Extent

namespace Headless

/-- The scale is one if none is asked for. -/
def defaultScale : Int := 1

def open? (wanted : Setting Extent) : Except Fault Headless := do
  let scale ← chooseScale defaultScale wanted
  checkScale scale
  return ⟨scale, .whole 0, .whole 0⟩

def setResolution (d : Headless) (width height : Extent) : Headless :=
  { d with width := width, height := height }

end Headless

end Chip8.Display
