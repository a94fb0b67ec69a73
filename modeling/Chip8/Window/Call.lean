import Chip8.Extent

/-!
What is asked of a window and its loudspeaker.
-/

namespace Chip8.Window

inductive Call
  | openDisplay
  | caption (text : String)
  | setMode (width height : Extent)
  /-- Takes an image of three bytes for each pixel. -/
  | image (rgb : Array UInt8) (width height : Int)
  | stretch (width height : Extent)
  | place (x y : Int)
  | flip
  | closeDisplay
  | prepareSound (rate bits channels buffer changes : Int)
  | openMixer
  | sound (samples : List UInt8)
  /-- Sets the volume to a number of tenths. -/
  | volume (tenths : Nat)
  | play (loops : Int)
  | stopSound
  | closeMixer
deriving DecidableEq

end Chip8.Window
