import Chip8.FrontEnd
import Chip8.Machine.Boot
import Chip8.Options

/-!
A session from its start to its end. The program is read before anything else, so a wrong name is
found before the host is touched. Then the front end is opened part by part, and the machine runs
on it until the user quits, an instruction cannot be executed, or the clock stops. Every session
that came as far as running closes its front end.
-/

namespace Chip8.Session

def banner : String :=
  "PeaChip Emulator V1.0.0 -- Copyright (C) 2022 Gregory Maynard-Hoare, licensed under " ++
    "GNU Affero General Public License v3.0"

structure Installed where
  window : Bool
  terminal : Bool

inductive Fault
  | missing (option : String)
  /-- There is no file name, or it can be none. -/
  | noFilename
  | rom (fault : Rom.Fault)
  | noWindow
  | noTerminal
  /-- None was asked for, and there is none. -/
  | noFrontEnd
  | unknownFrontEnd
  | display (fault : Display.Fault)
  | keymap (fault : Keymap.Fault)
  /-- There is no keymap, or it is no text. -/
  | noKeymap
deriving DecidableEq

def Fault.message : Fault → String
  | .missing option => "The option " ++ option ++ " is missing."
  | .noFilename => "No file name"
  | .rom f => f.message
  | .noWindow => "PyGame does not appear to be installed."
  | .noTerminal => "Curses (or Windows-Curses) does not appear to be installed."
  | .noFrontEnd => "Neither PyGame nor Curses (or Windows-Curses) appear to be installed."
  | .unknownFrontEnd => "No such renderer"
  | .display f => f.message
  | .keymap f => f.message
  | .noKeymap => "No keymap"

/-- A part of the start: what comes of it, and the calls made to the host whether it fails or
not. -/
structure Attempt (α : Type) where
  result : Except Fault α
  calls : List HostCall

namespace Attempt

variable {α β : Type}

def succeed (a : α) : Attempt α := ⟨.ok a, []⟩

/-- Goes on with the result unless the first part failed. -/
def andThen (first : Attempt α) (next : α → Attempt β) : Attempt β :=
  match first.result with
  | .error f => ⟨.error f, first.calls⟩
  | .ok a => ⟨(next a).result, first.calls ++ (next a).calls⟩

instance : Monad Attempt where
  pure := succeed
  bind := andThen

/-- A part that makes no calls. -/
def ofExcept {ε : Type} (cause : ε → Fault) (r : Except ε α) : Attempt α :=
  ⟨r.mapError cause, []⟩

def terminalCalls (calls : List Terminal.Call) : Attempt Unit :=
  ⟨.ok (), calls.map .terminal⟩

def windowCalls (calls : List Window.Call) : Attempt Unit := ⟨.ok (), calls.map .window⟩

end Attempt

/-- Refuses a kind that is not installed. Showing nothing needs no installation. -/
def checkKind (installed : Installed) : FrontEndKind → Except Fault FrontEndKind
  | .window => if installed.window then .ok .window else .error .noWindow
  | .terminal => if installed.terminal then .ok .terminal else .error .noTerminal
  | .headless => .ok .headless

/-- The front end to open. If none is asked for, a window is preferred to a terminal. -/
def chooseKind (installed : Installed) : Setting String → Except Fault FrontEndKind
  | .unset =>
    if installed.window then .ok .window
    else if installed.terminal then .ok .terminal
    else .error .noFrontEnd
  | .given name =>
    match FrontEndKind.ofName? name with
    | some kind => checkKind installed kind
    | none => .error .unknownFrontEnd
  | _ => .error .unknownFrontEnd

/-- Whether a front end is silent. A terminal is unless it was asked not to be. -/
def muted (kind : FrontEndKind) : Setting Int → Bool
  | .given n => n ≠ 0
  | .foreign isEmpty => !isEmpty
  | _ => kind = .terminal

/-- Refuses an option that is not mentioned. -/
def mention {α : Type} (option : String) (s : Setting α) : Except Fault Unit :=
  if s.isMentioned then .ok () else .error (.missing option)

def programFile : Setting ProgramFile → Except Fault ProgramFile
  | .given file => .ok file
  | .missing => .error (.missing "filename")
  | _ => .error .noFilename

def loadProgram (read : ProgramFile → Except Rom.Fault (List UInt8)) (file : ProgramFile) :
    Except Rom.Fault (List UInt8) :=
  Rom.load (fun _ => read file) file.shown

def keymapText : Setting String → Except Fault String
  | .given text => .ok text
  | .missing => .error (.missing "keymap")
  | _ => .error .noKeymap

def tracing : Setting Bool → Except Fault Bool
  | .given on => .ok on
  | .foreign isEmpty => .ok !isEmpty
  | .unset => .ok false
  | .missing => .error (.missing "debug")

/-- Opens a display that shows nothing, and reads the keymap all the same. -/
def openHeadless (o : Options) : Attempt FrontEnd := do
  let _ ← Attempt.ofExcept .display (Display.Headless.open? o.scale)
  let text ← Attempt.ofExcept id (keymapText o.keymap)
  let _ ← Attempt.ofExcept .keymap (Keymap.parse false text)
  return .headless

def openTerminal (o : Options) (s : Surroundings) : Attempt FrontEnd := do
  let (opened, calls) :=
    Terminal.Display.open? s.room o.scale Terminal.Display.defaultCursorMode s.resizable
  Attempt.terminalCalls calls
  let display ← Attempt.ofExcept .display opened
  let (display, calls) := display.setResolution Screen.standardWidth Screen.standardHeight
  Attempt.terminalCalls calls
  let text ← Attempt.ofExcept id (keymapText o.keymap)
  let keyboard ← Attempt.ofExcept .keymap (Terminal.Keyboard.open? text)
  let bell := if muted .terminal o.mute then none else some Terminal.Bell.silent
  return .terminal display (.ofKeyboard keyboard) bell

def openWindow (o : Options) : Attempt FrontEnd := do
  let (opened, calls) := Window.Display.open? o.scale
  Attempt.windowCalls calls
  let display ← Attempt.ofExcept .display opened
  let (display, calls) := display.setResolution Screen.standardWidth Screen.standardHeight
  Attempt.windowCalls calls
  let text ← Attempt.ofExcept id (keymapText o.keymap)
  let keyboard ← Attempt.ofExcept .keymap (Window.Keyboard.open? text)
  if muted .window o.mute then return .window display keyboard none
  let (buzzer, calls) := Window.Buzzer.start
  Attempt.windowCalls calls
  return .window display keyboard (some buzzer)

def openFrontEnd (o : Options) (s : Surroundings) :
    FrontEndKind → Attempt FrontEnd
  | .headless => openHeadless o
  | .terminal => openTerminal o s
  | .window => openWindow o

structure Ready where
  machine : Machine
  console : Console

/-- Starts a session; `read` gives the content of a file. -/
def start (installed : Installed) (read : ProgramFile → Except Rom.Fault (List UInt8))
    (o : Options) (s : Surroundings) (random : Nat → Int) : Attempt Ready := do
  Attempt.ofExcept id (mention "renderer" o.renderer)
  Attempt.ofExcept id (mention "mute" o.mute)
  let file ← Attempt.ofExcept id (programFile o.filename)
  let program ← Attempt.ofExcept .rom (loadProgram read file)
  let kind ← Attempt.ofExcept id (chooseKind installed o.renderer)
  Attempt.ofExcept id (mention "scale" o.scale)
  let frontEnd ← openFrontEnd o s kind
  let live ← Attempt.ofExcept id (tracing o.debug)
  Attempt.ofExcept .display (frontEnd.checkTitle s.room)
  return ⟨Machine.boot program live random, .ofFrontEnd frontEnd s⟩

inductive Ending
  | notStarted (fault : Fault)
  | quit
  | faulted (fault : HostLoop.Fault)
  | clockStopped
deriving DecidableEq

structure Report where
  ending : Ending
  calls : List HostCall
  /-- Readings of the clock that the loop made. -/
  readings : Nat
  /-- What was printed, one entry for each print. -/
  printed : List String

/-- A tick with the next reading. If the clock stops when the bell is to sound, the run ends in the
middle of the tick, without a verdict. -/
def tick (interval : Option Binary64) (r : HostLoop.Runner Console) (t : Binary64) :
    HostLoop.Runner Console :=
  let next := r.tick Console.host interval t
  if next.host.clockStopped then
    { next with
      loop := r.loop.breakOff t (r.input Console.host t).1.held
      phase := .stopped .running }
  else next

def feed (interval : Option Binary64) (r : HostLoop.Runner Console) (t : Binary64) :
    HostLoop.Runner Console :=
  match r.phase with
  | .ready => tick interval r t
  | _ => r.feed Console.host interval t

/-- How a run has ended. The clock stopped if nothing else ended it. -/
def endingOf : HostLoop.Phase → Ending
  | .stopped .quit => .quit
  | .stopped (.faulted f) => .faulted f
  | _ => .clockStopped

/-- What is left of a run once its front end is closed. -/
def close (calls : List HostCall) (r : HostLoop.Runner Console) : Report where
  ending := endingOf r.phase
  calls := calls ++ r.host.close.calls.toList
  readings := r.readings
  printed := banner :: r.loop.machine.printed.toList

/-- A whole session on a clock. -/
def run (installed : Installed) (read : ProgramFile → Except Rom.Fault (List UInt8))
    (o : Options) (s : Surroundings) (random : Nat → Int) (clock : HostLoop.Clock) : Report :=
  let attempt := start installed read o s random
  match attempt.result with
  | .error f => ⟨.notStarted f, attempt.calls, 0, [banner]⟩
  | .ok ready =>
    let interval := HostLoop.stepInterval HostLoop.standardSpeed
    let runner := HostLoop.Runner.start Console.host ready.machine ready.console
    close attempt.calls (runner.feedFrom (feed interval) clock.step clock.limit clock.now)

end Chip8.Session
