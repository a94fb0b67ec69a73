import Mathlib.Data.List.TakeWhile
import Chip8.Machine.Trace
import Chip8.Proofs.Text.Decimal
import Chip8.Proofs.Text.Hex

/-! # A trace line tells what it was made of

The registers take two digits each. Behind them every number stands between its label and a blank,
and no number contains a blank, so the numbers can be cut off one after the other, however long they
are. What is left is the text of the instruction, or the entries of the stack, which are cut off in
the same way. -/

namespace Chip8.Readout

open Text

variable {s t rest other : List Char} {fs gs : List (String × String)} {r r' : Readout}
  {items items' : List Int} {text text' : String}

/-! ## Words -/

/-- Nothing, or characters of which the first is a blank. -/
def EndsWord (rest : List Char) : Prop := ∀ c ∈ rest.head?, c = ' '

theorem takeWhile_of_endsWord (hs : ' ' ∉ s) (hrest : EndsWord rest) :
    (s ++ rest).takeWhile (· != ' ') = s := by
  have hword : ∀ c ∈ s, (c != ' ') = true := by
    intro c hc
    rw [bne_iff_ne]
    rintro rfl
    exact hs hc
  rw [List.takeWhile_append_of_pos hword]
  cases rest with
  | nil => exact List.append_nil s
  | cons c cs =>
    obtain rfl := hrest c rfl
    rw [List.takeWhile_cons_of_neg (by decide), List.append_nil]

theorem word_append_inj (hs : ' ' ∉ s) (ht : ' ' ∉ t) (hrest : EndsWord rest)
    (hother : EndsWord other) (h : s ++ rest = t ++ other) : s = t ∧ rest = other := by
  have hword : s = t := by
    rw [← takeWhile_of_endsWord hs hrest, h, takeWhile_of_endsWord ht hother]
  subst hword
  exact ⟨rfl, List.append_cancel_left h⟩

/-! ## Fields -/

theorem toList_fieldText (field : String × String) :
    (fieldText field).toList = ' ' :: (field.1.toList ++ field.2.toList) := by
  rw [fieldText, String.toList_append, String.toList_append]
  rfl

theorem toList_join_cons (field : String × String) (fs : List (String × String)) :
    (String.join ((field :: fs).map fieldText)).toList =
      ' ' :: (field.1.toList ++ (field.2.toList ++ (String.join (fs.map fieldText)).toList)) := by
  rw [List.map_cons, String.join_cons, String.toList_append, toList_fieldText, List.cons_append,
    List.append_assoc]

theorem endsWord_cons (cs : List Char) : EndsWord (' ' :: cs) := by
  rintro c ⟨⟩
  rfl

theorem endsWord_fields (fs : List (String × String)) (hrest : EndsWord rest) :
    EndsWord ((String.join (fs.map fieldText)).toList ++ rest) := by
  cases fs with
  | nil => exact hrest
  | cons field fs =>
    rw [toList_join_cons]
    exact endsWord_cons _

/-- Numbers behind the same labels are told apart from each other and from what follows. -/
theorem fields_append_inj (hlabels : fs.map Prod.fst = gs.map Prod.fst)
    (hfs : ∀ field ∈ fs, ' ' ∉ field.2.toList) (hgs : ∀ field ∈ gs, ' ' ∉ field.2.toList)
    (hrest : EndsWord rest) (hother : EndsWord other)
    (h : (String.join (fs.map fieldText)).toList ++ rest =
      (String.join (gs.map fieldText)).toList ++ other) : fs = gs ∧ rest = other := by
  induction fs generalizing gs with
  | nil =>
    obtain rfl := List.map_eq_nil_iff.mp hlabels.symm
    exact ⟨rfl, h⟩
  | cons field fs ih =>
    cases gs with
    | nil => cases hlabels
    | cons field' gs =>
      obtain ⟨hlabel, hlabels⟩ := List.cons.inj hlabels
      rw [toList_join_cons, toList_join_cons, hlabel, List.cons_append, List.cons_append,
        List.append_assoc, List.append_assoc, List.append_assoc, List.append_assoc] at h
      have hnumber := List.append_cancel_left (List.cons.inj h).2
      obtain ⟨hfirst, htail⟩ := word_append_inj (hfs field List.mem_cons_self)
        (hgs field' List.mem_cons_self) (endsWord_fields fs hrest) (endsWord_fields gs hother)
        hnumber
      obtain ⟨hall, hend⟩ := ih hlabels (fun f hf => hfs f (List.mem_cons_of_mem _ hf))
        (fun f hf => hgs f (List.mem_cons_of_mem _ hf)) htail
      exact ⟨by rw [Prod.ext hlabel (String.toList_inj.mp hfirst), hall], hend⟩

/-! ## Lines -/

theorem blank_notMem_fields (r : Readout) : ∀ field ∈ r.fields, ' ' ∉ field.2.toList := by
  simp only [fields, List.forall_mem_cons, List.not_mem_nil, false_implies, implies_true,
    and_true]
  exact ⟨blank_notMem_hex _ _, blank_notMem_hex _ _, blank_notMem_hex _ _, blank_notMem_hex _ _,
    blank_notMem_hex _ _, blank_notMem_toString _, blank_notMem_hex _ _⟩

theorem registersText_inj (h : r.registersText = r'.registersText) : r.v = r'.v := by
  have hbytes : r.v.toList.reverse = r'.v.toList.reverse := by
    rw [← bytesOfHex_hexBytes r.v.toList.reverse, ← bytesOfHex_hexBytes r'.v.toList.reverse]
    exact congrArg (fun text => bytesOfHex text.toList) h
  exact Vector.toList_inj.mp (List.reverse_inj.mp hbytes)

theorem eq_of_fields (hregisters : r.registersText = r'.registersText)
    (hfields : r.fields = r'.fields) : r = r' := by
  have hv := registersText_inj hregisters
  simp only [fields, List.cons.injEq, Prod.mk.injEq, true_and, and_true, hex_inj] at hfields
  obtain ⟨hi, hdt, hst, hpc, hpointer, hticks, hopcode⟩ := hfields
  cases r
  cases r'
  cases hv
  cases hi
  cases hdt
  cases hst
  cases hpc
  cases hpointer
  cases toString_inj hticks
  cases hopcode
  rfl

theorem length_registersText (r : Readout) : r.registersText.toList.length = 32 := by
  rw [registersText, length_hexBytes, List.length_reverse, Vector.length_toList]

/-- A line with more text behind it is told apart from every other one. -/
theorem line_append_inj (h : (r.line text).toList ++ rest = (r'.line text').toList ++ other) :
    r = r' ∧ text.toList ++ rest = text'.toList ++ other := by
  unfold line at h
  generalize "V: 0x" = front, "IN: " = label at h
  simp only [String.toList_append, List.append_assoc, toList_fieldText, List.cons_append] at h
  obtain ⟨hregisters, hbehind⟩ := List.append_inj (List.append_cancel_left h)
    ((length_registersText r).trans (length_registersText r').symm)
  have hlabels : r.fields.map Prod.fst = r'.fields.map Prod.fst := rfl
  obtain ⟨hfields, hend⟩ := fields_append_inj hlabels r.blank_notMem_fields
    r'.blank_notMem_fields (endsWord_cons _) (endsWord_cons _) hbehind
  exact ⟨eq_of_fields (String.toList_inj.mp hregisters) hfields,
    List.append_cancel_left (List.cons.inj hend).2⟩

/-! ## The stack -/

/-- The entries of a stack as they are written. -/
def entries (items : List Int) : List (String × String) := items.map fun item => ("0x", hex 3 item)

theorem stackText_of_ne_nil (h : items ≠ []) :
    stackText items = String.join ((entries items).map fieldText) := by
  rw [stackText, if_neg (by simpa using h), entries, List.map_map]
  rfl

theorem toList_entries_cons (item : Int) (rest : List Int) :
    (String.join ((entries (item :: rest)).map fieldText)).toList =
      ' ' :: ("0x".toList ++ ((hex 3 item).toList ++
        (String.join ((entries rest).map fieldText)).toList)) :=
  toList_join_cons ("0x", hex 3 item) (entries rest)

theorem endsWord_entries (items : List Int) :
    EndsWord (String.join ((entries items).map fieldText)).toList := by
  cases items with
  | nil => nofun
  | cons item rest =>
    rw [toList_entries_cons]
    exact endsWord_cons _

theorem entries_inj (h : (String.join ((entries items).map fieldText)).toList =
    (String.join ((entries items').map fieldText)).toList) : items = items' := by
  induction items generalizing items' with
  | nil =>
    cases items' with
    | nil => rfl
    | cons item' rest' =>
      rw [toList_entries_cons] at h
      cases h
  | cons item rest ih =>
    cases items' with
    | nil =>
      rw [toList_entries_cons] at h
      cases h
    | cons item' rest' =>
      rw [toList_entries_cons, toList_entries_cons] at h
      have hnumber := List.append_cancel_left (List.cons.inj h).2
      obtain ⟨hfirst, htail⟩ := word_append_inj (blank_notMem_hex 3 item)
        (blank_notMem_hex 3 item') (endsWord_entries rest) (endsWord_entries rest') hnumber
      rw [hex_inj.mp (String.toList_inj.mp hfirst), ih htail]

/-- What is said of an empty stack begins with no number. -/
theorem stackText_ne (h : items ≠ []) : stackText items ≠ stackText [] := by
  intro heq
  obtain ⟨item, rest, rfl⟩ := List.exists_cons_of_ne_nil h
  have hempty : (stackText []).toList.tail.head? = some '(' := by decide
  have hfull : (stackText (item :: rest)).toList.tail.head? = some '0' := by
    rw [stackText_of_ne_nil h, toList_entries_cons]
    rfl
  rw [heq, hempty] at hfull
  cases hfull

theorem stackText_inj (h : stackText items = stackText items') : items = items' := by
  by_cases hitems : items = []
  · subst hitems
    by_cases hitems' : items' = []
    · exact hitems'.symm
    · exact absurd h.symm (stackText_ne hitems')
  · by_cases hitems' : items' = []
    · subst hitems'
      exact absurd h (stackText_ne hitems)
    · rw [stackText_of_ne_nil hitems, stackText_of_ne_nil hitems'] at h
      exact entries_inj (congrArg String.toList h)

/-- A trace line tells all its numbers, whatever they are, and its text. With the stack below it,
and for one and the same text, it tells the entries of the stack as well. -/
theorem trace_determines (r r' : Readout) (items items' : List Int) (text text' : String) :
    (r.line text = r'.line text' ↔ r = r' ∧ text = text') ∧
    (r.verbose items text = r'.verbose items' text ↔ r = r' ∧ items = items') := by
  constructor
  · constructor
    · intro h
      have hchars : (r.line text).toList ++ [] = (r'.line text').toList ++ [] :=
        congrArg (·.toList ++ []) h
      obtain ⟨hr, htext⟩ := line_append_inj hchars
      rw [List.append_nil, List.append_nil] at htext
      exact ⟨hr, String.toList_inj.mp htext⟩
    · rintro ⟨rfl, rfl⟩
      rfl
  · constructor
    · intro h
      unfold verbose at h
      have hchars := congrArg String.toList h
      rw [String.toList_append, String.toList_append, String.toList_append, String.toList_append,
        List.append_assoc, List.append_assoc] at hchars
      obtain ⟨hr, hbehind⟩ := line_append_inj hchars
      have hstack := List.append_cancel_left (List.append_cancel_left hbehind)
      exact ⟨hr, stackText_inj (String.toList_inj.mp hstack)⟩
    · rintro ⟨rfl, rfl⟩
      rfl

end Chip8.Readout
