import Chip8.Terminal.Display
import Chip8.Terminal.Pad

/-! # The cells of a pad

A write gives its cells the colour that it is made in, whatever was written there before, and leaves
all other cells alone. The runs of a row may be cut and put together in any way, but the rows stay
in ascending order, without which a row could not be found again. -/

namespace Chip8.Terminal

/-- Whether the call neither writes to a pad nor makes one. -/
def Call.sparesPad : Call → Bool
  | .newPad _ _ | .writePad _ _ _ _ => false
  | _ => true

/-! ## Runs of a row -/

namespace Run

variable {w : Run} {runs : List Run} {stop column : Int} {reverse : Bool}

theorem any_nonempty? (r : Run) : r.nonempty?.any (·.holds column) = r.holds column := by
  unfold nonempty?
  split
  · rfl
  · rename_i hempty
    symm
    simp only [holds, Option.any_none, Bool.and_eq_false_imp, decide_eq_true_eq,
      decide_eq_false_iff_not]
    omega

theorem any_before? (r : Run) :
    (r.before? stop).any (·.holds column) = (decide (column < stop) && r.holds column) := by
  rw [before?, any_nonempty?, Bool.eq_iff_iff]
  simp only [holds, Bool.and_eq_true, decide_eq_true_eq]
  omega

theorem any_after? (r : Run) :
    (r.after? stop).any (·.holds column) = (decide (stop ≤ column) && r.holds column) := by
  rw [after?, any_nonempty?, Bool.eq_iff_iff]
  simp only [holds, Bool.and_eq_true, decide_eq_true_eq]
  omega

/-- What is left of each run, where all that is cut off lies on one side of the column. -/
theorem any_filterMap {cut : Run → Option Run} {kept : Bool}
    (h : ∀ r, (cut r).any (·.holds column) = (kept && r.holds column)) :
    (runs.filterMap cut).any (·.holds column) = (kept && runs.any (·.holds column)) := by
  induction runs with
  | nil => simp
  | cons r rest ih =>
    have hr := h r
    cases hcut : cut r with
    | none =>
      rw [hcut, Option.any_none] at hr
      rw [List.filterMap_cons_none hcut, ih, List.any_cons, Bool.and_or_distrib_left, ← hr,
        Bool.false_or]
    | some part =>
      rw [hcut, Option.any_some] at hr
      rw [List.filterMap_cons_some hcut, List.any_cons, ih, hr, List.any_cons,
        Bool.and_or_distrib_left]

theorem any_overwrite (hw : w.first ≤ w.stop) :
    (overwrite w reverse runs).any (·.holds column) =
      if w.holds column then reverse else runs.any (·.holds column) := by
  have hnew : (if reverse then w.nonempty?.toList else []).any (·.holds column) =
      (reverse && w.holds column) := by
    cases reverse with
    | true =>
      rw [if_pos rfl, Bool.true_and, ← any_nonempty? w]
      cases w.nonempty? <;> simp
    | false => rfl
  unfold overwrite
  rw [List.any_append, List.any_append, any_filterMap any_before?, any_filterMap any_after?, hnew]
  by_cases hholds : w.holds column
  · have hin : w.first ≤ column ∧ column < w.stop := by
      simpa only [holds, Bool.and_eq_true, decide_eq_true_eq] using hholds
    rw [if_pos hholds, hholds, decide_eq_false (by omega), decide_eq_false (by omega)]
    simp
  · have hout : column < w.first ∨ w.stop ≤ column := by
      simp only [holds, Bool.and_eq_true, decide_eq_true_eq] at hholds
      omega
    rw [if_neg hholds, Bool.eq_false_iff.mpr hholds]
    rcases hout with hleft | hright
    · rw [decide_eq_true hleft, decide_eq_false (by omega)]
      simp
    · rw [decide_eq_true hright, decide_eq_false (by omega)]
      simp

end Run

namespace Pad

/-! ## Rows -/

/-- The rows stand in ascending order. -/
def Sorted (rows : List (Int × List Run)) : Prop := rows.Pairwise fun a b => a.1 < b.1

variable {rows : List (Int × List Run)} {row r : Int} {change : List Run → List Run}

theorem lookup_of_lt (h : ∀ entry ∈ rows, row < entry.1) : rows.lookup row = none := by
  rw [List.lookup_eq_none_iff]
  intro entry hentry
  have := h entry hentry
  rw [bne_iff_ne]
  omega

theorem mem_changeRow {entry : Int × List Run} (h : entry ∈ changeRow row change rows) :
    entry.1 = row ∨ entry ∈ rows := by
  induction rows with
  | nil => exact Or.inl (congrArg Prod.fst (List.mem_singleton.mp h))
  | cons head rest ih =>
    obtain ⟨r, runs⟩ := head
    unfold changeRow at h
    split at h
    · rename_i hrow
      rcases List.mem_cons.mp h with rfl | h
      · exact Or.inl hrow
      · exact Or.inr (List.mem_cons_of_mem _ h)
    · split at h
      · rcases List.mem_cons.mp h with rfl | h
        · exact Or.inl rfl
        · exact Or.inr h
      · rcases List.mem_cons.mp h with rfl | h
        · exact Or.inr List.mem_cons_self
        · exact (ih h).imp_right (List.mem_cons_of_mem _)

theorem sorted_changeRow (h : Sorted rows) : Sorted (changeRow row change rows) := by
  induction rows with
  | nil => exact List.pairwise_singleton _ _
  | cons head rest ih =>
    obtain ⟨r, runs⟩ := head
    obtain ⟨hfirst, hrest⟩ := List.pairwise_cons.mp h
    unfold changeRow
    split
    · exact List.pairwise_cons.mpr ⟨hfirst, hrest⟩
    · split
      · rename_i hlt
        refine List.pairwise_cons.mpr ⟨fun entry hentry => ?_, h⟩
        rcases List.mem_cons.mp hentry with rfl | hentry
        · exact hlt
        · exact Int.lt_trans hlt (hfirst entry hentry)
      · refine List.pairwise_cons.mpr ⟨fun entry hentry => ?_, ih hrest⟩
        rcases mem_changeRow hentry with hrow | hentry
        · change r < entry.1
          omega
        · exact hfirst entry hentry

theorem lookup_cons (r' : Int) (runs : List Run) (r : Int) :
    ((r', runs) :: rows).lookup r = if r = r' then some runs else rows.lookup r := by
  rw [List.lookup_cons]
  by_cases hr : r = r'
  · rw [if_pos hr, beq_iff_eq.mpr hr]
  · rw [if_neg hr, beq_eq_false_iff_ne.mpr hr]

theorem lookup_changeRow (h : Sorted rows) :
    (changeRow row change rows).lookup r =
      if r = row then some (change ((rows.lookup row).getD [])) else rows.lookup r := by
  induction rows with
  | nil => exact lookup_cons row _ r
  | cons head rest ih =>
    obtain ⟨r', runs⟩ := head
    obtain ⟨hfirst, hrest⟩ := List.pairwise_cons.mp h
    unfold changeRow
    by_cases hrow : r' = row
    · subst hrow
      rw [if_pos rfl, lookup_cons, lookup_cons, lookup_cons, if_pos rfl, Option.getD_some]
      by_cases hr : r = r'
      · rw [if_pos hr, if_pos hr]
      · rw [if_neg hr, if_neg hr, if_neg hr]
    · rw [if_neg hrow]
      by_cases hlt : row < r'
      · -- The row is not there yet, and all rows from here on come after it.
        have hnone : ((r', runs) :: rest).lookup row = none := by
          apply lookup_of_lt
          intro entry hentry
          rcases List.mem_cons.mp hentry with rfl | hentry
          · exact hlt
          · exact Int.lt_trans hlt (hfirst entry hentry)
        rw [if_pos hlt, hnone]
        exact lookup_cons row _ r
      · rw [if_neg hlt, lookup_cons, lookup_cons, lookup_cons, ih hrest, if_neg (Ne.symm hrow)]
        by_cases hr : r = r'
        · rw [if_pos hr, if_pos hr, if_neg (hr ▸ hrow)]
        · rw [if_neg hr, if_neg hr]

/-! ## Writes and calls -/

variable {p : Pad} {column : Int}

theorem isReversed_write (hp : Sorted p.rows) (row column : Int) (n : Nat) (reverse : Bool)
    (r c : Int) :
    (p.write row column n reverse).isReversed r c =
      if r = row ∧ column ≤ c ∧ c < column + n then reverse else p.isReversed r c := by
  have hruns : (p.write row column n reverse).runsAt r = if r = row then
      Run.overwrite ⟨column, column + n⟩ reverse (p.runsAt row) else p.runsAt r := by
    unfold runsAt write
    rw [lookup_changeRow hp]
    split <;> rfl
  unfold isReversed
  rw [hruns]
  by_cases hr : r = row
  · subst hr
    have hholds : Run.holds ⟨column, column + n⟩ c = true ↔ column ≤ c ∧ c < column + n := by
      simp [Run.holds]
    have hle : column ≤ column + n := by omega
    rw [if_pos rfl, Run.any_overwrite hle]
    simp only [hholds, true_and]
  · rw [if_neg hr, if_neg fun h => hr h.1]

theorem sorted_apply (hp : Sorted p.rows) (call : Call) : Sorted (p.apply call).rows := by
  cases call with
  | newPad height width => exact List.Pairwise.nil
  | writePad row column text reverse => exact sorted_changeRow hp
  | _ => exact hp

/-- The pad after these calls. -/
def ofCalls (calls : List Call) : Pad := calls.foldl apply blank

theorem ofCalls_append (calls more : List Call) :
    ofCalls (calls ++ more) = more.foldl apply (ofCalls calls) := List.foldl_append

theorem sorted_foldl (hp : Sorted p.rows) (calls : List Call) :
    Sorted (calls.foldl apply p).rows := by
  induction calls generalizing p with
  | nil => exact hp
  | cons call rest ih => exact ih (sorted_apply hp call)

theorem sorted_ofCalls (calls : List Call) : Sorted (ofCalls calls).rows :=
  sorted_foldl List.Pairwise.nil calls

/-- Calls of other kinds leave the pad. -/
theorem foldl_apply_of_spares {calls : List Call} (h : ∀ call ∈ calls, call.sparesPad = true)
    (p : Pad) : calls.foldl apply p = p := by
  induction calls with
  | nil => rfl
  | cons call rest ih =>
    have hcall : p.apply call = p := by
      cases call with
      | newPad _ _ | writePad _ _ _ _ => cases h _ List.mem_cons_self
      | _ => rfl
    rw [List.foldl_cons, hcall]
    exact ih fun call' hcall' => h call' (List.mem_cons_of_mem call hcall')

end Pad

/-! ## Displays and their calls -/

namespace Display

/-- A refresh that sees the size of the one before pushes the pad if there is a reason to, and
otherwise does nothing; one that sees another size clears the screen. -/
theorem refresh_cases (d : Display) (changed : Bool) (size : Int × Int) :
    (size = d.lastSize ∧ (d.pending = true ∨ changed = true) ∧
      d.refresh changed size =
        ({ d with pending := false }, [.pushPad (size.1 - 1) (size.2 - 1)])) ∨
    (size = d.lastSize ∧ d.pending = false ∧ changed = false ∧
      d.refresh changed size = ({ d with pending := false }, [])) ∨
    (size ≠ d.lastSize ∧ d.refresh changed size =
      ({ d with pending := true, lastSize := size },
        [.clearScreen] ++ (if d.resizable then [.resize size.1 size.2] else []) ++
          [.refreshScreen])) := by
  unfold refresh
  by_cases hsize : size = d.lastSize
  · simp only [if_pos hsize]
    cases d.pending <;> cases changed <;> simp [hsize]
  · right
    right
    exact ⟨hsize, if_neg hsize⟩

theorem spares_refresh (d : Display) (changed : Bool) (size : Int × Int) :
    ∀ call ∈ (d.refresh changed size).2, call.sparesPad = true := by
  rcases d.refresh_cases changed size with ⟨_, _, h⟩ | ⟨_, _, _, h⟩ | ⟨_, h⟩
  · rw [h]
    simp [Call.sparesPad]
  · rw [h]
    simp
  · rw [h]
    cases d.resizable <;> simp [Call.sparesPad]

theorem lastSize_refresh (d : Display) (changed : Bool) (size : Int × Int) :
    (d.refresh changed size).1.lastSize = size := by
  rcases d.refresh_cases changed size with ⟨hsame, _, h⟩ | ⟨hsame, _, _, h⟩ | ⟨_, h⟩
  · rw [h]
    exact hsame.symm
  · rw [h]
    exact hsame.symm
  · rw [h]

theorem scale_refresh (d : Display) (changed : Bool) (size : Int × Int) :
    (d.refresh changed size).1.scale = d.scale ∧ (d.refresh changed size).1.width = d.width := by
  rcases d.refresh_cases changed size with ⟨_, _, h⟩ | ⟨_, _, _, h⟩ | ⟨_, h⟩ <;> rw [h] <;>
    exact ⟨rfl, rfl⟩

theorem lastSize_open {room : Nat} {wanted : Setting Extent} {mode : CursorMode}
    {resizable : Bool} {d : Display} (h : (open? room wanted mode resizable).1 = .ok d) :
    d.lastSize = (-1, -1) := by
  unfold open? at h
  split at h
  · cases h
  · split at h
    · cases h
    · cases h
      rfl

/-- A display as it is opened if no scale is asked for. -/
def untouched : Display := ⟨.whole 2, 2, .hidden, 0, 0, true, false, (-1, -1)⟩

theorem open_untouched {room : Nat} (h : 2 < room) :
    (open? room .unset .hidden true).1 = .ok untouched := by
  have hrow : Capacity.checkRow room 2 1 = .ok () := if_neg (Nat.not_le.mpr h)
  have hscale : chooseScale room .unset =
      (Capacity.checkRow room 2 1).mapError Chip8.Display.Fault.capacity >>=
        fun _ => .ok (.whole 2, 2) := rfl
  unfold open?
  rw [hscale, hrow]
  rfl

end Display

/-- A display with all the calls that it has made. -/
structure Transcript where
  display : Display
  calls : List Call

namespace Transcript

/-- A display that has just made its pad. -/
def opened (d : Display) (width height : Int) : Transcript :=
  ⟨(d.setResolution width height).1, (d.setResolution width height).2⟩

/-- Adds what the display has become and the calls that it made. -/
def add (h : Transcript) (made : Display × List Call) : Transcript := ⟨made.1, h.calls ++ made.2⟩

def pad (h : Transcript) : Pad := .ofCalls h.calls

end Transcript

end Chip8.Terminal
