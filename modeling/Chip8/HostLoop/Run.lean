import Chip8.HostLoop

/-!
Running the loop on a stream of clock readings. A reading is used for one purpose only: for a tick,
or, while the loop waits for the next step to be due, for a look at the clock. The reading that
ends a wait is not the one that the next tick uses.
-/

namespace Chip8

/-- The host's side of a run: how it answers when asked for input at some time, and how it acts on
a request. -/
structure Host (σ : Type) where
  poll : Binary64 → σ → Poll × σ
  handle : Binary64 → Request → σ → σ

namespace HostLoop

/-- What the loop does with the next reading. -/
inductive Phase
  | ready
  /-- Waits until the clock shows at least this time. -/
  | waiting (deadline : Binary64)
  | stopped (verdict : Verdict)
deriving DecidableEq

/-- A run in progress, with a host in state `host`. -/
structure Runner (σ : Type) where
  loop : HostLoop
  host : σ
  phase : Phase
  /-- Readings used so far. -/
  readings : Nat

/-- A whole number of steps per second, zero for negative ones. It must be finite. -/
def wholeSpeed (n : Int) : Except Fault Binary64 :=
  if n ≤ 0 then .ok 0
  else match Binary64.ofInt? n with
    | some speed => .ok speed
    | none => .error .speedTooLarge

/-- The time between two steps, none if the loop does not wait. -/
def stepInterval (speed : Binary64) : Option Binary64 :=
  if speed.le 0 then none else some (Binary64.div 1 speed)

namespace Runner

variable {σ : Type}

def handleAll (h : Host σ) (t : Binary64) (requests : List Request) (s : σ) : σ :=
  requests.foldl (fun s r => h.handle t r s) s

/-- A run that has made no reading yet. -/
def start (h : Host σ) (m : Machine) (s : σ) : Runner σ :=
  let (loop, requests) := HostLoop.start m
  ⟨loop, handleAll h 0 requests s, .ready, 0⟩

/-- The host's answer, if the tick at this time asks for it. -/
def input (h : Host σ) (r : Runner σ) (t : Binary64) : Poll × σ :=
  if r.loop.tickPolls t then h.poll t r.host else (⟨false, Vector.replicate 16 false⟩, r.host)

def tick (h : Host σ) (interval : Option Binary64) (r : Runner σ) (t : Binary64) : Runner σ :=
  let (answer, s) := r.input h t
  let done := r.loop.tick t answer
  let phase :=
    match done.verdict, interval with
    | .running, none => .ready
    | .running, some d => .waiting (t.add d)
    | verdict, _ => .stopped verdict
  ⟨done.loop, handleAll h t done.requests s, phase, r.readings + 1⟩

def feed (h : Host σ) (interval : Option Binary64) (r : Runner σ) (t : Binary64) : Runner σ :=
  match r.phase with
  | .ready => r.tick h interval t
  | .waiting deadline =>
    { r with phase := if t.lt deadline then r.phase else .ready, readings := r.readings + 1 }
  | .stopped _ => r

def ended (r : Runner σ) : Bool :=
  match r.phase with
  | .stopped _ => true
  | _ => false

/-- Uses readings until the run ends or the readings do. -/
def run (h : Host σ) (interval : Option Binary64) : List Binary64 → Runner σ → Runner σ
  | [], r => r
  | t :: rest, r => if r.ended then r else run h interval rest (r.feed h interval t)

end Runner

/-- A clock that advances by `step` with every reading and stops after `limit` readings. -/
structure Clock where
  now : Binary64
  step : Binary64
  limit : Nat

def readingsFrom (step : Binary64) : Nat → Binary64 → List Binary64
  | 0, _ => []
  | n + 1, now => now :: readingsFrom step n (now.add step)

def Clock.readings (c : Clock) : List Binary64 := readingsFrom c.step c.limit c.now

namespace Runner

variable {σ : Type}

/-- Feeds a run with the readings of a clock one by one, without making those that are not used. -/
def feedFrom (feed : Runner σ → Binary64 → Runner σ) (step : Binary64) :
    Nat → Binary64 → Runner σ → Runner σ
  | 0, _, r => r
  | n + 1, now, r => if r.ended then r else feedFrom feed step n (now.add step) (feed r now)

def runOn (h : Host σ) (interval : Option Binary64) (c : Clock) (r : Runner σ) : Runner σ :=
  feedFrom (feed h interval) c.step c.limit c.now r

theorem feedFrom_eq_run (h : Host σ) (interval : Option Binary64) (step : Binary64) (n : Nat)
    (now : Binary64) (r : Runner σ) :
    feedFrom (feed h interval) step n now r = run h interval (readingsFrom step n now) r := by
  induction n generalizing now r with
  | zero => rfl
  | succ n ih => simp [feedFrom, run, readingsFrom, ih]

/-- Running on a clock is running on its readings. -/
theorem runOn_eq_run (h : Host σ) (interval : Option Binary64) (c : Clock) (r : Runner σ) :
    runOn h interval c r = run h interval c.readings r :=
  feedFrom_eq_run h interval c.step c.limit c.now r

end Runner

end HostLoop

end Chip8
