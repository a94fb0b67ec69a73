import Chip8.Binary64
import Chip8.Machine.Execute

/-!
The loop between a machine and its host. Every tick takes one machine step. Sixty times a second
it also asks the host for input and shows the picture if it has changed, and once a second it
reports its speed in the title. Times are readings of the host's clock in seconds, of any value
and in any order.
-/

namespace Chip8

/-- What the loop asks of the host's display and loudspeaker. -/
inductive Request
  | title (text : String)
  | pixel (write : Screen.PixelWrite)
  /-- Shows the pixels written since the last refresh. -/
  | refresh
  | beep
deriving DecidableEq

namespace Request

def title? : Request → Option String
  | .title text => some text
  | _ => none

def pixel? : Request → Option Screen.PixelWrite
  | .pixel write => some write
  | _ => none

end Request

/-- What the host answers when it is asked for input. -/
structure Poll where
  quit : Bool
  held : Vector Bool 16

namespace Screen

def render (s : Screen) : List Request := s.pixelWrites.map .pixel ++ [.refresh]

end Screen

/-- A machine and the loop's clocks and counters. -/
structure HostLoop where
  machine : Machine
  nextDisplay : Binary64
  nextReport : Binary64
  /-- Pictures shown since the last report. -/
  fps : Nat
  /-- Steps taken since the last report. -/
  ops : Nat

namespace HostLoop

/-- The time between two looks at the host's input and display. -/
def displayInterval : Binary64 := .div 1 60

/-- The steps per second of the standard loop. -/
def standardSpeed : Binary64 := 1000

def titleText (fps ops : Nat) : String :=
  "PeaChip Emulator - " ++ toString fps ++ " FPS, " ++ toString ops ++ " OPS"

/-- A loop that has not ticked yet, and the title it starts with. -/
def start (m : Machine) : HostLoop × List Request :=
  (⟨m, 0, 0, 0, 0⟩, [.title (titleText 0 0)])

inductive Fault
  | machine (fault : Machine.Fault)
  /-- The time is infinite, so no full second comes next. -/
  | timeTooLarge
  /-- The speed is too large for the time between two steps to be a number. -/
  | speedTooLarge
deriving DecidableEq

def Fault.message : Fault → String
  | .machine f => f.message
  | .timeTooLarge => "The time is too large"
  | .speedTooLarge => "The speed is too large"

inductive Verdict
  | running
  | quit
  | faulted (fault : Fault)
deriving DecidableEq

structure Tick where
  loop : HostLoop
  requests : List Request
  verdict : Verdict

def reports (l : HostLoop) (t : Binary64) : Bool := l.nextReport.le t

/-- Whether a tick at this time has to report the speed, but could not say when to report next. -/
def failsToReport (l : HostLoop) (t : Binary64) : Bool :=
  l.reports t && t.integerPart?.isNone

def polls (l : HostLoop) (t : Binary64) : Bool := l.nextDisplay.le t

/-- Whether a tick at this time asks for input. -/
def tickPolls (l : HostLoop) (t : Binary64) : Bool := !l.failsToReport t && l.polls t

/-- Reports the speed when the time has come; the next report is due at the next full second. -/
def report (l : HostLoop) (t : Binary64) : HostLoop × List Request :=
  match t.integerPart?, l.reports t with
  | some second, true =>
    ({ l with nextReport := (Binary64.ofRat second).add 1, fps := 0, ops := 0 },
      [.title (titleText l.fps l.ops)])
  | _, _ => (l, [])

/-- Shows the picture if it has changed, and counts it. -/
def showScreen (l : HostLoop) : HostLoop × List Request :=
  let (changed, screen) := l.machine.screen.consumeRedraw
  let shown := { l with machine := { l.machine with screen := screen } }
  if changed then ({ shown with fps := l.fps + 1 }, screen.render) else (shown, [])

/-- Takes over the keys that are held down and sets the time of the next look. -/
def takeKeys (l : HostLoop) (t : Binary64) (held : Vector Bool 16) : HostLoop :=
  { l with machine := l.machine.setKeys held, nextDisplay := t.add displayInterval }

/-- Takes one machine step; a step that fails is not counted. -/
def stepMachine (l : HostLoop) (before : List Request) : Tick :=
  let out := l.machine.step
  let beeps := List.replicate (out.machine.beeps - l.machine.beeps) .beep
  match out.fault with
  | none => ⟨{ l with machine := out.machine, ops := l.ops + 1 }, before ++ beeps, .running⟩
  | some f => ⟨{ l with machine := out.machine }, before ++ beeps, .faulted (.machine f)⟩

/-- One tick at time `t`; `input` is what the host answers if the tick asks. A tick that quits
takes no step. -/
def tick (l : HostLoop) (t : Binary64) (input : Poll) : Tick :=
  if l.failsToReport t then ⟨l, [], .faulted .timeTooLarge⟩
  else
    let (reported, titles) := l.report t
    if reported.polls t then
      if input.quit then ⟨reported, titles, .quit⟩
      else
        let (shown, frame) := (reported.takeKeys t input.held).showScreen
        shown.stepMachine (titles ++ frame)
    else reported.stepMachine titles

/-- The loop after a tick whose step gets no further than to its beep. -/
def breakOff (l : HostLoop) (t : Binary64) (held : Vector Bool 16) : HostLoop :=
  let reported := (l.report t).1
  let before := if reported.polls t then (reported.takeKeys t held).showScreen.1 else reported
  { before with machine := before.machine.countDown }

end HostLoop

end Chip8
