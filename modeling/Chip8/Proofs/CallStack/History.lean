import Chip8.Proofs.CallStack
import Chip8.Slice

/-! # The stack as a list of limited length

The same calls are answered by three parties: a list that takes no more than so many items, the
stack, and a row of slots with a pointer of which nothing is promised, so that it may miss the row.
The three cannot be told apart by their answers. So the pointer never misses the row, and what
stands in the slots above it does not matter. -/

namespace Chip8.CallStack

/-- A call to a stack. -/
inductive Call
  | push (item : Int)
  | pop
  | items

/-- How a call ends. -/
inductive Answer
  | done
  | item (value : Int)
  | items (all : List Int)
  | refused (fault : Fault)
  /-- There is no such slot. -/
  | outside

/-- Makes calls one after the other. -/
def answerAll {σ : Type} (perform : σ → Call → Answer × σ) : σ → List Call → List Answer × σ
  | s, [] => ([], s)
  | s, call :: rest =>
    let next := perform s call
    let later := answerAll perform next.2 rest
    (next.1 :: later.1, later.2)

/-- A refused call leaves the stack as it is. -/
def perform (s : CallStack) : Call → Answer × CallStack
  | .push item =>
    match s.push item with
    | .ok t => (.done, t)
    | .error f => (.refused f, s)
  | .pop =>
    match s.pop with
    | .ok (item, t) => (.item item, t)
    | .error f => (.refused f, s)
  | .items => (.items s.items, s)

/-- A list of at most `limit` items. -/
def performBounded (limit : Nat) (items : List Int) : Call → Answer × List Int
  | .push item =>
    if items.length = limit then (.refused .overflow, items) else (.done, items ++ [item])
  | .pop =>
    match items.getLast? with
    | none => (.refused .underflow, items)
    | some item => (.item item, items.dropLast)
  | .items => (.items items, items)

/-- Slots and a pointer of which nothing is promised. -/
structure Bare where
  size : Int
  slots : List Int
  pointer : Int

namespace Bare

def ofSize (size : Int) : Bare := ⟨size, List.replicate size.toNat 0, 0⟩

/-- The slot at a position, if there is one. A negative position counts from the end. -/
def place? (s : Bare) (k : Int) : Option Nat :=
  let place := if k < 0 then k + s.slots.length else k
  if 0 ≤ place ∧ place < s.slots.length then some place.toNat else none

/-- A push compares the pointer with the size that was asked for, and a pop moves the pointer before
it reads a slot. -/
def perform (s : Bare) : Call → Answer × Bare
  | .push item =>
    if s.size ≤ s.pointer then (.refused .overflow, s)
    else
      match s.place? s.pointer with
      | none => (.outside, s)
      | some k => (.done, { s with slots := s.slots.set k item, pointer := s.pointer + 1 })
  | .pop =>
    if s.pointer ≤ 0 then (.refused .underflow, s)
    else
      let moved := { s with pointer := s.pointer - 1 }
      match moved.place? moved.pointer with
      | none => (.outside, moved)
      | some k => (.item (moved.slots.getD k 0), moved)
  | .items => (.items (s.slots.take (sliceEnd s.slots.length s.pointer)), s)

end Bare

/-- The stack without what is promised of it. -/
def bare (s : CallStack) : Bare := ⟨s.size, s.slots.toList, s.pointer⟩

@[simp] theorem size_bare (s : CallStack) : s.bare.size = s.size := rfl

@[simp] theorem slots_bare (s : CallStack) : s.bare.slots = s.slots.toList := rfl

@[simp] theorem pointer_bare (s : CallStack) : s.bare.pointer = s.pointer := rfl

/-! ## One call -/

theorem place?_bare (s : CallStack) {k : Nat} (pointer : Int) (hk : k < s.slots.size) :
    Bare.place? { s.bare with pointer := pointer } k = some k := by
  unfold Bare.place?
  simp only [slots_bare, Array.length_toList, Int.not_lt.mpr (Int.natCast_nonneg k), if_false]
  rw [if_pos (by omega), Int.toNat_natCast]

theorem sliceEnd_pointer (s : CallStack) : sliceEnd s.slots.size s.pointer = s.pointer := by
  have hle := s.pointer_le
  unfold sliceEnd
  rw [if_neg (by omega), Int.toNat_natCast, Nat.min_eq_left hle]

/-- Comparing the pointer with the size that was asked for, which may be negative, is comparing it
with the number of slots. -/
theorem full_iff (s : CallStack) : s.bare.size ≤ s.bare.pointer ↔ s.slots.size ≤ s.pointer := by
  have hsize := s.slots_size
  rw [size_bare, pointer_bare]
  omega

theorem perform_bare_push (s : CallStack) (item : Int) :
    s.bare.perform (.push item) =
      ((s.perform (.push item)).1, (s.perform (.push item)).2.bare) := by
  by_cases hfull : s.slots.size ≤ s.pointer
  · have hpush : s.push item = .error .overflow := dif_neg (Nat.not_lt.mpr hfull)
    simp only [perform, hpush, Bare.perform, if_pos (s.full_iff.mpr hfull)]
  · have hlt := Nat.lt_of_not_le hfull
    have hpush : s.push item = .ok _ := dif_pos hlt
    have hplace : s.bare.place? s.bare.pointer = some s.pointer :=
      s.place?_bare s.bare.pointer hlt
    simp only [perform, hpush, Bare.perform, if_neg (mt s.full_iff.mp hfull), hplace]
    simp only [bare, Array.toList_set, Int.natCast_succ]

theorem perform_bare_pop (s : CallStack) :
    s.bare.perform .pop = ((s.perform .pop).1, (s.perform .pop).2.bare) := by
  have hle := s.pointer_le
  by_cases hempty : s.pointer = 0
  · have hpop : s.pop = .error .underflow := dif_neg (Nat.not_lt.mpr (Nat.le_of_eq hempty))
    have hbare : s.bare.pointer ≤ 0 := by
      rw [pointer_bare]
      omega
    simp only [perform, hpop, Bare.perform, if_pos hbare]
  · have hpop : s.pop = .ok _ := dif_pos (Nat.pos_of_ne_zero hempty)
    have hbare : ¬ s.bare.pointer ≤ 0 := by
      rw [pointer_bare]
      omega
    have hmoved : s.bare.pointer - 1 = ((s.pointer - 1 : Nat) : Int) := by
      rw [pointer_bare]
      omega
    have hlt : s.pointer - 1 < s.slots.size := by omega
    have hplace := s.place?_bare ((s.pointer - 1 : Nat) : Int) hlt
    have hslot : s.bare.slots.getD (s.pointer - 1) 0 = s.slots[s.pointer - 1] := by
      simp [hlt]
    simp only [perform, hpop, Bare.perform, if_neg hbare, hmoved, hplace, hslot]
    rfl

/-- The pointer does not miss the row, though nothing is promised of it. -/
theorem perform_bare (s : CallStack) (call : Call) :
    s.bare.perform call = ((s.perform call).1, (s.perform call).2.bare) := by
  cases call with
  | push item => exact s.perform_bare_push item
  | pop => exact s.perform_bare_pop
  | items =>
    simp only [perform, Bare.perform]
    simp only [bare, Array.length_toList, sliceEnd_pointer, items]

theorem perform_items_push (s : CallStack) (item : Int) :
    let next := s.perform (.push item)
    next.2.size = s.size ∧
      performBounded s.size.toNat s.items (.push item) = (next.1, next.2.items) := by
  have hle := s.slots_size ▸ s.pointer_le
  simp only [perform, performBounded, length_items]
  cases hpush : s.push item with
  | error f =>
    obtain ⟨rfl, hfull⟩ := push_eq_error_iff.mp hpush
    rw [if_pos (Nat.le_antisymm hle hfull)]
    exact ⟨rfl, rfl⟩
  | ok t =>
    obtain ⟨hsize, -, hitems⟩ := push_eq_ok hpush
    have hroom : s.pointer ≠ s.size.toNat := by
      intro hfull
      have hrefused : s.push item = .error .overflow :=
        push_eq_error_iff.mpr ⟨rfl, Nat.le_of_eq hfull.symm⟩
      rw [hpush] at hrefused
      cases hrefused
    rw [if_neg hroom, ← hitems]
    exact ⟨hsize, rfl⟩

theorem perform_items_pop (s : CallStack) :
    let next := s.perform .pop
    next.2.size = s.size ∧ performBounded s.size.toNat s.items .pop = (next.1, next.2.items) := by
  simp only [perform, performBounded]
  cases hpop : s.pop with
  | error f =>
    obtain ⟨rfl, hempty⟩ := pop_eq_error_iff.mp hpop
    have hnil : s.items = [] := List.eq_nil_of_length_eq_zero (s.length_items.trans hempty)
    simp only [hnil, List.getLast?_nil, and_self]
  | ok result =>
    obtain ⟨item, t⟩ := result
    obtain ⟨hsize, -, hitems⟩ := pop_eq_ok hpop
    rw [hitems, List.getLast?_concat, List.dropLast_concat]
    exact ⟨hsize, rfl⟩

/-- The stack does with the entries in use what the list does. -/
theorem perform_items (s : CallStack) (call : Call) :
    (s.perform call).2.size = s.size ∧
      performBounded s.size.toNat s.items call =
        ((s.perform call).1, (s.perform call).2.items) := by
  cases call with
  | push item => exact s.perform_items_push item
  | pop => exact s.perform_items_pop
  | items => exact ⟨rfl, rfl⟩

/-! ## Calls one after the other -/

section
variable {σ τ : Type} {p : σ → Call → Answer × σ} {q : τ → Call → Answer × τ}
  {R : σ → τ → Prop} {s : σ} {t : τ}

/-- Two parties that answer every single call alike, and stay related by it, answer all calls
alike. -/
theorem answerAll_of_related
    (hcall : ∀ s t, R s t → ∀ call, (p s call).1 = (q t call).1 ∧ R (p s call).2 (q t call).2)
    (h : R s t) (calls : List Call) :
    (answerAll p s calls).1 = (answerAll q t calls).1 ∧
      R (answerAll p s calls).2 (answerAll q t calls).2 := by
  induction calls generalizing s t with
  | nil => exact ⟨rfl, h⟩
  | cons call rest ih =>
    obtain ⟨hanswer, hnext⟩ := hcall s t h call
    obtain ⟨hlater, hend⟩ := ih hnext
    simp only [answerAll, hanswer, hlater, true_and]
    exact hend

end

theorem answerAll_items (s : CallStack) (calls : List Call) :
    (answerAll perform s calls).1 = (answerAll (performBounded s.size.toNat) s.items calls).1 ∧
      (answerAll perform s calls).2.size = s.size ∧
      (answerAll perform s calls).2.items =
        (answerAll (performBounded s.size.toNat) s.items calls).2 := by
  have hcall : ∀ t items, t.size = s.size ∧ t.items = items → ∀ call,
      (perform t call).1 = (performBounded s.size.toNat items call).1 ∧
        (perform t call).2.size = s.size ∧
        (perform t call).2.items = (performBounded s.size.toNat items call).2 := by
    rintro t items ⟨hsize, rfl⟩ call
    obtain ⟨hkept, hlist⟩ := t.perform_items call
    rw [hsize] at hkept hlist
    rw [hlist]
    exact ⟨rfl, hkept, rfl⟩
  exact answerAll_of_related (R := fun (t : CallStack) items => t.size = s.size ∧ t.items = items)
    hcall ⟨rfl, rfl⟩ calls

theorem answerAll_bare (s : CallStack) (calls : List Call) :
    (answerAll Bare.perform s.bare calls).1 = (answerAll perform s calls).1 ∧
      (answerAll Bare.perform s.bare calls).2 = (answerAll perform s calls).2.bare := by
  have hcall : ∀ b s, b = bare s → ∀ call,
      (b.perform call).1 = (perform s call).1 ∧ (b.perform call).2 = (perform s call).2.bare := by
    rintro b s rfl call
    rw [s.perform_bare call]
    exact ⟨rfl, rfl⟩
  exact answerAll_of_related (R := fun b s => b = bare s) hcall rfl calls

/-! ## What cannot be seen -/

theorem Bare.eq_of_refused {s : Bare} {call : Call} {f : Fault}
    (h : (s.perform call).1 = .refused f) : (s.perform call).2 = s := by
  cases call with
  | push item =>
    simp only [Bare.perform] at h ⊢
    split
    · rfl
    · rename_i hroom
      rw [if_neg hroom] at h
      split at h <;> cases h
  | pop =>
    simp only [Bare.perform] at h ⊢
    split
    · rfl
    · rename_i hpos
      rw [if_neg hpos] at h
      split at h <;> cases h
  | items => cases h

/-- What stands in the slots from the pointer on has no influence on any answer. -/
theorem answers_of_same_items (s : CallStack) {t : Bare} (hsize : t.size = s.bare.size)
    (hpointer : t.pointer = s.bare.pointer) (hlength : t.slots.length = s.bare.slots.length)
    (hitems : t.slots.take s.pointer = s.items) (calls : List Call) :
    (answerAll Bare.perform t calls).1 = (answerAll Bare.perform s.bare calls).1 := by
  rw [slots_bare, Array.length_toList] at hlength
  -- Such slots are those of a stack with the same entries in use.
  let other : CallStack :=
    { size := s.size
      slots := t.slots.toArray
      pointer := s.pointer
      slots_size := by rw [List.size_toArray, hlength, s.slots_size]
      pointer_le := by rw [List.size_toArray, hlength]; exact s.pointer_le }
  have hother : t = other.bare := by
    cases t
    cases hsize
    cases hpointer
    rfl
  have hsame : other.items = s.items := hitems
  rw [hother, (other.answerAll_bare calls).1, (other.answerAll_items calls).1, hsame,
    (s.answerAll_bare calls).1, (s.answerAll_items calls).1]

theorem answer_bare (s : CallStack) (call : Call) :
    (s.bare.perform call).1 = (performBounded s.size.toNat s.items call).1 := by
  rw [s.perform_bare call, (s.perform_items call).2]

theorem push_refused_iff (s : CallStack) {item : Int} {f : Fault} :
    (s.bare.perform (.push item)).1 = .refused f ↔
      f = .overflow ∧ (s.items.length : Int) = max s.size 0 := by
  have hlimit : (s.items.length : Int) = max s.size 0 ↔ s.items.length = s.size.toNat := by omega
  rw [answer_bare, hlimit]
  simp only [performBounded]
  split
  · rename_i hfull
    rw [Answer.refused.injEq]
    exact ⟨fun h => ⟨h.symm, hfull⟩, fun h => h.1.symm⟩
  · rename_i hroom
    exact ⟨nofun, fun h => absurd h.2 hroom⟩

theorem bare_ofSize (size : Int) : (ofSize size).bare = Bare.ofSize size := by
  unfold ofSize bare Bare.ofSize
  rw [Array.toList_replicate]
  rfl

theorem outside_notMem_bounded (limit : Nat) (items : List Int) (calls : List Call) :
    .outside ∉ (answerAll (performBounded limit) items calls).1 := by
  have hcall : ∀ items call, (performBounded limit items call).1 ≠ .outside := by
    intro items call
    cases call with
    | push item =>
      simp only [performBounded]
      split <;> nofun
    | pop =>
      simp only [performBounded]
      split <;> nofun
    | items => nofun
  induction calls generalizing items with
  | nil => exact List.not_mem_nil
  | cons call rest ih =>
    rw [answerAll, List.mem_cons]
    exact not_or.mpr ⟨(hcall items call).symm, ih _⟩

/-- Whatever size is asked for and whatever calls are made, slots and pointer alone answer as a list
does that takes as many items as there are slots: nothing if the size is negative. A push is refused
if and only if the list is full, and a pop if and only if it is empty; a refused call changes
nothing. No call misses the row, and what was left in the slots above the pointer is never seen. -/
theorem refines_list (size : Int) (calls : List Call) :
    let list := answerAll (performBounded size.toNat) [] calls
    let stack := answerAll perform (ofSize size) calls
    let bare := answerAll Bare.perform (Bare.ofSize size) calls
    (bare.1 = list.1 ∧ stack.1 = list.1 ∧ .outside ∉ list.1) ∧
    (bare.2 = stack.2.bare ∧ stack.2.items = list.2 ∧ (bare.2.perform .items).1 = .items list.2) ∧
    ((bare.2.slots.length : Int) = max size 0 ∧ 0 ≤ bare.2.pointer ∧
      bare.2.pointer ≤ max size 0) ∧
    (∀ item f, (bare.2.perform (.push item)).1 = .refused f ↔
      f = .overflow ∧ (list.2.length : Int) = max size 0) ∧
    (bare.2.perform .pop).1 = (match list.2.getLast? with
      | none => .refused .underflow
      | some item => .item item) ∧
    (∀ call f, (bare.2.perform call).1 = .refused f → (bare.2.perform call).2 = bare.2) ∧
    ∀ t : Bare, t.size = bare.2.size → t.pointer = bare.2.pointer →
      t.slots.length = bare.2.slots.length →
      t.slots.take t.pointer.toNat = bare.2.slots.take bare.2.pointer.toNat →
      ∀ later, (answerAll Bare.perform t later).1 = (answerAll Bare.perform bare.2 later).1 := by
  intro list stack bare
  obtain ⟨hanswers, hsize, hitems⟩ := (ofSize size).answerAll_items calls
  obtain ⟨hbare, hend⟩ := (ofSize size).answerAll_bare calls
  rw [bare_ofSize] at hbare hend
  have hstack : bare.2 = stack.2.bare := hend
  have hlist : stack.2.items = list.2 := hitems
  have hlimit : stack.2.size = size := hsize
  have hslots := stack.2.slots_size
  have hpointer := stack.2.pointer_le
  rw [hstack, ← hlist]
  refine ⟨⟨hbare.trans hanswers, hanswers, outside_notMem_bounded _ _ _⟩,
    ⟨rfl, rfl, answer_bare stack.2 .items⟩, ?_, ?_, ?_, fun _ _ => Bare.eq_of_refused, ?_⟩
  · rw [slots_bare, pointer_bare, Array.length_toList]
    omega
  · intro item f
    rw [← hlimit]
    exact push_refused_iff stack.2
  · rw [answer_bare]
    simp only [performBounded]
    split <;> rfl
  · intro t hsize hpointer hlength hbelow
    rw [hpointer, pointer_bare, Int.toNat_natCast] at hbelow
    exact stack.2.answers_of_same_items hsize hpointer hlength hbelow

/-- One slot with what was popped from it: nothing is left to be popped, and any other number could
stand there. -/
theorem refines_list_popped :
    let bare : Bare := ⟨1, [7], 0⟩
    (answerAll Bare.perform (Bare.ofSize 1) [.push 7, .push 8, .pop]).2 = bare ∧
      (bare.perform .pop).1 = .refused .underflow ∧ (bare.perform .pop).2 = bare ∧
      ∀ later, (answerAll Bare.perform ⟨1, [9], 0⟩ later).1 =
        (answerAll Bare.perform bare later).1 := by
  intro bare
  have hbare : (answerAll Bare.perform (Bare.ofSize 1) [.push 7, .push 8, .pop]).2 = bare := rfl
  obtain ⟨_, _, _, _, _, hunchanged, hunseen⟩ := refines_list 1 [.push 7, .push 8, .pop]
  rw [hbare] at hunchanged hunseen
  exact ⟨rfl, rfl, hunchanged .pop .underflow rfl, hunseen ⟨1, [9], 0⟩ rfl rfl rfl rfl⟩

end Chip8.CallStack
