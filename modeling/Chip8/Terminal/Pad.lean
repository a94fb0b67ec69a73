import Chip8.Terminal.Call

/-!
The contents of a pad: which cells are in reverse video after some calls. Every row is kept as a
list of runs of such cells, from left to right and without overlap, so it costs as much as the runs
do, however wide they are. Nothing keeps writes inside the pad.
-/

namespace Chip8.Terminal

/-- The columns from `first` up to, but without, `stop`. -/
structure Run where
  first : Int
  stop : Int
deriving DecidableEq

namespace Run

def holds (r : Run) (column : Int) : Bool := r.first ≤ column && column < r.stop

/-- The run, if it has any columns. -/
def nonempty? (r : Run) : Option Run := if r.first < r.stop then some r else none

/-- The part of a run to the left of a column. -/
def before? (column : Int) (r : Run) : Option Run := nonempty? ⟨r.first, min r.stop column⟩

/-- The part of a run from a column on. -/
def after? (column : Int) (r : Run) : Option Run := nonempty? ⟨max r.first column, r.stop⟩

def columns (r : Run) : List Int :=
  (List.range (r.stop - r.first).toNat).map fun (k : Nat) => r.first + k

/-- Writes over the columns of `w` in a row of runs. -/
def overwrite (w : Run) (reverse : Bool) (runs : List Run) : List Run :=
  runs.filterMap (before? w.first) ++ (if reverse then w.nonempty?.toList else []) ++
    runs.filterMap (after? w.stop)

end Run

/-- The rows that were written to, from top to bottom. -/
structure Pad where
  rows : List (Int × List Run)

namespace Pad

def blank : Pad := ⟨[]⟩

def changeRow (row : Int) (change : List Run → List Run) :
    List (Int × List Run) → List (Int × List Run)
  | [] => [(row, change [])]
  | (r, runs) :: rest =>
    if r = row then (r, change runs) :: rest
    else if row < r then (row, change []) :: (r, runs) :: rest
    else (r, runs) :: changeRow row change rest

/-- Writes the cells of a text of `n` characters. -/
def write (p : Pad) (row column : Int) (n : Nat) (reverse : Bool) : Pad :=
  ⟨changeRow row (Run.overwrite ⟨column, column + n⟩ reverse) p.rows⟩

def runsAt (p : Pad) (row : Int) : List Run := (p.rows.lookup row).getD []

def isReversed (p : Pad) (row column : Int) : Bool := (p.runsAt row).any fun r => r.holds column

def apply (p : Pad) : Call → Pad
  | .newPad _ _ => blank
  | .writePad row column text reverse => p.write row column text.length reverse
  | _ => p

/-- The columns in reverse video of each row from `first` on that has any. -/
def litRows (p : Pad) (first : Int) : List (Int × List Int) :=
  p.rows.filterMap fun (row, runs) =>
    match runs.flatMap Run.columns with
    | [] => none
    | columns => if first ≤ row then some (row, columns) else none

end Pad

end Chip8.Terminal
