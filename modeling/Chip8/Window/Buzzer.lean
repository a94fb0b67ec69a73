import Chip8.Binary64
import Chip8.Capacity
import Chip8.Window.Call

/-!
The buzzer of a window: a short square wave, played again whenever it is asked for and not already
playing. The wave is a pattern of bits, stretched to the sampling rate of the loudspeaker.
-/

namespace Chip8.Window

structure Buzzer where
  /-- Whether the loudspeaker gave a channel to the last sound. -/
  channel : Bool

namespace Buzzer

inductive Fault
  | noLength
  | infiniteLength
  | negativeLength
  | capacity (fault : Capacity.Fault)
  | beyondPattern
deriving DecidableEq

def Fault.message : Fault → String
  | .noLength => "The length of the sound is no number"
  | .infiniteLength => "A sound cannot last forever"
  | .negativeLength => "A sound cannot have a negative length"
  | .capacity f => f.message
  | .beyondPattern => "No such bit in the pattern"

/-- The sample at a position: the bit of the pattern that it falls on, at full height. -/
def sample (pattern : List UInt8) (factor : Rat) (k : Nat) : Except Fault UInt8 :=
  let position := Binary64.round (k / factor)
  let byte := Binary64.truncate (position / 8)
  let bit := 7 - Binary64.truncate (position - 8 * byte)
  match pattern[byte.toNat]? with
  | some b => .ok (if b.toNat.testBit bit.toNat then 0xFF else 0)
  | none => .error .beyondPattern

/-- The number of samples, before it is cut to a whole one. -/
def stretchedLength (pattern : List UInt8) (factor : Binary64) : Binary64 :=
  (Binary64.ofRat (8 * pattern.length : Nat)).mul factor

/-- The whole number of samples, and the factor as a number. -/
def measure (pattern : List UInt8) (factor : Binary64) : Except Fault (Int × Rat) :=
  match factor, stretchedLength pattern factor with
  | _, .undefined => .error .noLength
  | .finite factor, .finite value => .ok (Binary64.truncate value, factor)
  | _, _ => .error .infiniteLength

def samples (pattern : List UInt8) (length : Int) (factor : Rat) : Except Fault (List UInt8) :=
  if length < 0 then .error .negativeLength
  else (List.range length.toNat).mapM (sample pattern factor)

/-- The bits of a pattern, each as many samples long as `factor` says, if there is room for them. -/
def stretch (room : Nat) (pattern : List UInt8) (factor : Binary64) :
    Except Fault (List UInt8) := do
  let (length, factor) ← measure pattern factor
  (Capacity.checkRow room length 1).mapError .capacity
  samples pattern length factor

/-- Samples per second. -/
def samplingRate : Int := 44100

/-- Bits of the pattern per second. -/
def patternRate : Int := 4000

def pattern : List UInt8 := [0, 0xFF, 0, 0xFF, 0, 0xFF, 0, 0xFF, 0, 0xFF, 0, 0xFF, 0, 0xFF, 0, 0xFF]

/-- The samples of the square wave. There are few of them on every host. -/
def wave : List UInt8 :=
  match measure pattern (Binary64.ofRat (samplingRate / patternRate)) with
  | .ok (length, factor) => (samples pattern length factor).toOption.getD []
  | .error _ => []

/-- How often a sound repeats: about as long as a picture is shown. -/
def loops : Int := 20

def start : Buzzer × List Call :=
  (⟨false⟩, [.prepareSound samplingRate 8 1 512 0, .openMixer, .sound wave, .volume 1])

/-- Plays the sound unless it is playing; `granted` is whether the loudspeaker gives a channel. -/
def beep (b : Buzzer) (busy granted : Bool) : Buzzer × List Call :=
  if b.channel && busy then (b, []) else (⟨granted⟩, [.play loops])

def close : List Call := [.stopSound, .closeMixer]

end Buzzer

end Chip8.Window
