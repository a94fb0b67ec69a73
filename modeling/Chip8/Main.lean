import Chip8.CommandLine
import Chip8.Session

/-!
The program itself. It runs a machine in real time without a display, and prints what the machine
prints.
-/

namespace Chip8.Main

/-- The content of a file. Whatever keeps it from being read counts as its absence. A command line
names files by their paths only. -/
def readFile : ProgramFile → IO (Except Rom.Fault (List UInt8))
  | .path name => do
    try
      return .ok (← IO.FS.readBinFile name).toList
    catch _ => return .error .notFound
  | .descriptor number => return .error (.notOpen number)
  | .other _ => return .error .noFile

def readClock : IO Binary64 := do
  return .ofRat ((← IO.monoNanosNow : Nat) / 1000000000)

/-- Feeds a run with readings of the clock until it ends, and prints what it prints. -/
partial def runLive (interval : Option Binary64) (r : HostLoop.Runner Console) :
    IO (HostLoop.Runner Console) := do
  if r.ended then return r
  let next := Session.feed interval r (← readClock)
  for line in next.loop.machine.printedSince r.loop.machine do
    IO.println line
  runLive interval next

/-- Reports why a session ended and gives the exit code. -/
def reportEnding : Session.Ending → IO UInt32
  | .notStarted f => do
    IO.eprintln f.message
    return 1
  | .faulted f => do
    IO.eprintln f.message
    return 1
  | _ => return 0

def runSession (o : Options) : IO UInt32 := do
  IO.println Session.banner
  let content ← match o.filename with
    | .given file => readFile file
    | _ => pure (.error .noFile)
  let seed ← IO.rand 0 0xFFFFFFFF
  let random : Nat → Int := fun k => (mixHash (hash seed) (hash k)).toNat % 0x100
  match (Session.start ⟨false, false⟩ (fun _ => content) o (.quiet 0) random).result with
  | .error f => reportEnding (.notStarted f)
  | .ok ready =>
    let r ← runLive (HostLoop.stepInterval HostLoop.standardSpeed)
      (HostLoop.Runner.start Console.host ready.machine ready.console)
    reportEnding (Session.endingOf r.phase)

end Chip8.Main

open Chip8 in
/-- Runs the program with the arguments of the command line. -/
def main (args : List String) : IO UInt32 := do
  match CommandLine.parse args with
  | .ok o => Main.runSession o
  | .error .help =>
    IO.print CommandLine.helpText
    return 0
  | .error (.fault f) =>
    IO.eprint (CommandLine.usageText ++ CommandLine.programName ++ ": error: " ++ f.message ++ "\n")
    return 2
