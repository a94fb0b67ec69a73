import Chip8.HostLoop.Run
import Chip8.Terminal.Bell
import Chip8.Terminal.Display
import Chip8.Terminal.Input
import Chip8.Window.Buzzer
import Chip8.Window.Display
import Chip8.Window.Keyboard

/-!
Front ends: a display, a keyboard and a loudspeaker that belong together. A console is a front end
at work; it notes every call that it makes to its host, and takes the host's answers from a script.
-/

namespace Chip8

inductive HostCall
  | terminal (call : Terminal.Call)
  | window (call : Window.Call)
deriving DecidableEq

/-- What a host has, and what it answers, in the order in which it is asked. -/
structure Surroundings where
  /-- The room for one row of items, in bytes. -/
  room : Nat
  /-- The terminal's heights and widths, before it has its final one. -/
  sizes : List (Int × Int)
  /-- The size that stays. A terminal of which nothing is known has 40 rows and 200 columns. -/
  finalSize : Int × Int := sizes.getLast?.getD (40, 200)
  /-- Whether the terminal can be told its new size. -/
  resizable : Bool
  /-- The characters that come in before each look of the loop at the queue of a terminal. -/
  typed : List (List Int)
  /-- What the keyboard's clock shows each time the terminal is asked for input; it stands still
  during a tick once they are used up. -/
  keyTimes : List Terminal.Input.Times
  /-- What the bell's clock shows each time it is asked to sound, nothing if it has stopped; the
  time of the tick once they are used up. -/
  bellTimes : List (Option Binary64)
  /-- What the window reports each time it is asked; nothing once they are used up. -/
  batches : List (List Window.Event)
  /-- Whether the sound is still playing. -/
  busy : List Bool
  /-- Whether no channel is free for a sound. -/
  refusals : List Bool

namespace Surroundings

/-- A host on which nothing happens. -/
def quiet (room : Nat) : Surroundings where
  room := room
  sizes := []
  resizable := true
  typed := []
  keyTimes := []
  bellTimes := []
  batches := []
  busy := []
  refusals := []

def takeSize (s : Surroundings) : (Int × Int) × Surroundings :=
  match s.sizes with
  | [] => (s.finalSize, s)
  | size :: rest => (size, { s with sizes := rest })

def takeKeyTimes (t : Binary64) (s : Surroundings) : Terminal.Input.Times × Surroundings :=
  match s.keyTimes with
  | [] => (.still t, s)
  | times :: rest => (times, { s with keyTimes := rest })

def takeBellTime (t : Binary64) (s : Surroundings) : Option Binary64 × Surroundings :=
  match s.bellTimes with
  | [] => (some t, s)
  | time :: rest => (time, { s with bellTimes := rest })

def takeBatch (s : Surroundings) : List Window.Event × Surroundings :=
  match s.batches with
  | [] => ([], s)
  | batch :: rest => (batch, { s with batches := rest })

def takeBusy (s : Surroundings) : Bool × Surroundings :=
  match s.busy with
  | [] => (false, s)
  | b :: rest => (b, { s with busy := rest })

def takeRefusal (s : Surroundings) : Bool × Surroundings :=
  match s.refusals with
  | [] => (false, s)
  | b :: rest => (b, { s with refusals := rest })

end Surroundings

/-- A front end. One without a bell or a buzzer is silent. -/
inductive FrontEnd
  | headless
  | terminal (display : Terminal.Display) (input : Terminal.Input)
      (bell : Option Terminal.Bell)
  | window (display : Window.Display) (keyboard : Window.Keyboard)
      (buzzer : Option Window.Buzzer)

/-- Refuses a front end with titles that the host cannot hold. -/
def FrontEnd.checkTitle (room : Nat) : FrontEnd → Except Display.Fault Unit
  | .terminal d _ _ => d.checkTitle room
  | _ => .ok ()

/-- A front end at work. -/
structure Console where
  frontEnd : FrontEnd
  surroundings : Surroundings
  calls : Array HostCall
  /-- Whether the bell was asked to sound when its clock had stopped. -/
  clockStopped : Bool

namespace Console

def ofFrontEnd (f : FrontEnd) (s : Surroundings) : Console := ⟨f, s, #[], false⟩

def noteTerminal (c : Console) (calls : List Terminal.Call) : Console :=
  { c with calls := c.calls ++ calls.map HostCall.terminal }

def noteWindow (c : Console) (calls : List Window.Call) : Console :=
  { c with calls := c.calls ++ calls.map HostCall.window }

def poll (t : Binary64) (c : Console) : Poll × Console :=
  match c.frontEnd with
  | .headless => (⟨false, Vector.replicate 16 false⟩, c)
  | .terminal d i b =>
    let (times, s) := c.surroundings.takeKeyTimes t
    let (quit, i, turns) := i.visit times.taken s.typed
    (⟨quit, Vector.ofFn fun key => i.keyboard.keyDown (times.asked.get key) key⟩,
      { c with frontEnd := .terminal d i b, surroundings := { s with typed := turns } })
  | .window d k b =>
    let (batch, s) := c.surroundings.takeBatch
    let (quit, k) := k.process batch
    (⟨quit, k.held⟩, { c with frontEnd := .window d k b, surroundings := s })

def drawTerminal (d : Terminal.Display) (s : Surroundings) :
    Request → Terminal.Display × Surroundings × List Terminal.Call
  | .title text =>
    let (d, calls) := d.setTitle text
    (d, s, calls)
  | .pixel w => (d, s, d.setPixel w.x w.y w.lit)
  | .refresh =>
    let (size, s) := s.takeSize
    let (d, calls) := d.refresh true size
    (d, s, calls)
  | .beep => (d, s, [])

def drawWindow (d : Window.Display) : Request → Window.Display × List Window.Call
  | .title text => (d, [.caption text])
  | .pixel w => (d.draw w, [])
  | .refresh => (d, d.refresh true)
  | .beep => (d, [])

/-- A bell is asked to sound in a tick at time `t`. It reads a clock of its own; if that has
stopped, there are no calls that could be made. -/
def ring (t : Binary64) (s : Surroundings) : Option Terminal.Bell →
    Option Terminal.Bell × Surroundings × Option (List Terminal.Call)
  | none => (none, s, some [])
  | some b =>
    match s.takeBellTime t with
    | (none, s) => (some b, s, none)
    | (some time, s) =>
      let (b, calls) := b.beep time
      (some b, s, some calls)

/-- A buzzer is asked to sound. It looks whether it is still sounding only if it has a channel,
and asks for a channel only if it is not. -/
def buzz (s : Surroundings) : Option Window.Buzzer →
    Option Window.Buzzer × Surroundings × List Window.Call
  | none => (none, s, [])
  | some b =>
    let (busy, s) := if b.channel then s.takeBusy else (false, s)
    let (refused, s) := if b.channel && busy then (false, s) else s.takeRefusal
    let (b, calls) := b.beep busy (!refused)
    (some b, s, calls)

def handle (t : Binary64) (request : Request) : Console → Console
  | ⟨.headless, s, calls, stopped⟩ => ⟨.headless, s, calls, stopped⟩
  | ⟨.terminal d i b, s, calls, stopped⟩ =>
    match request with
    | .beep =>
      let (b, s, made) := ring t s b
      noteTerminal ⟨.terminal d i b, s, calls, stopped || made.isNone⟩ (made.getD [])
    | request =>
      let (d, s, made) := drawTerminal d s request
      noteTerminal ⟨.terminal d i b, s, calls, stopped⟩ made
  | ⟨.window d k b, s, calls, stopped⟩ =>
    match request with
    | .beep =>
      let (b, s, made) := buzz s b
      noteWindow ⟨.window d k b, s, calls, stopped⟩ made
    | request =>
      let (d, made) := drawWindow d request
      noteWindow ⟨.window d k b, s, calls, stopped⟩ made

/-- A console as the host of a loop. -/
def host : Host Console := ⟨poll, handle⟩

/-- Ends the front end: first the sound, then the keyboard, then the display. -/
def close (c : Console) : Console :=
  match c.frontEnd with
  | .headless => c
  | .terminal d i b =>
    { c with frontEnd := .terminal d i.close b }.noteTerminal d.close
  | .window _ _ b =>
    c.noteWindow ((if b.isSome then Window.Buzzer.close else []) ++ Window.Display.close)

end Console

end Chip8
