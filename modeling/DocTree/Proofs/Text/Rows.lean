import DocTree.Proofs.Sequence
import DocTree.Text.Lines

/-!
# Rows

A text as a list of rows, each a line together with the break that ends it. The last row ends
without a break. Putting the rows one after another gives the text back, so a change of rows is a
change of the text at a known place.
-/
namespace DocTree

structure Row where
  line : Text
  ending : Text
  deriving DecidableEq, Repr

def Row.join (rows : List Row) : Text :=
  rows.flatMap fun r => r.line ++ r.ending

@[simp] theorem Row.join_nil : join [] = [] := rfl

@[simp] theorem Row.join_cons (r : Row) (rows : List Row) :
    join (r :: rows) = r.line ++ r.ending ++ join rows := rfl

@[simp] theorem Row.join_append (rows more : List Row) :
    join (rows ++ more) = join rows ++ join more := by
  simp [join]

namespace Lines

def rowsFrom : Text → List (Break × Text) → List Row
  | line, [] => [⟨line, []⟩]
  | line, (b, next) :: rest => ⟨line, b.toText⟩ :: rowsFrom next rest

def rows (l : Lines) : List Row :=
  rowsFrom l.first l.rest

theorem join_rowsFrom (line : Text) (rest : List (Break × Text)) :
    Row.join (rowsFrom line rest) = line ++ rest.flatMap fun (b, next) => b.toText ++ next := by
  induction rest generalizing line with
  | nil => simp [rowsFrom]
  | cons p rest ih => simp [rowsFrom, ih]

theorem map_line_rowsFrom (line : Text) (rest : List (Break × Text)) :
    (rowsFrom line rest).map Row.line = line :: rest.map (·.2) := by
  induction rest generalizing line with
  | nil => rfl
  | cons p rest ih => simp [rowsFrom, ih]

theorem map_ending_rowsFrom (line : Text) (rest : List (Break × Text)) :
    (rowsFrom line rest).map Row.ending = rest.map (·.1.toText) ++ [[]] := by
  induction rest generalizing line with
  | nil => rfl
  | cons p rest ih => simp [rowsFrom, ih]

end Lines

namespace Text

def rows (s : Text) : List Row :=
  (Lines.ofText s).rows

/-- The rows of a text give it back. -/
@[simp] theorem join_rows (s : Text) : Row.join s.rows = s := by
  have h := Lines.toText_ofText s
  rw [rows, Lines.rows, Lines.join_rowsFrom]
  exact h

theorem map_line_rows (s : Text) : s.rows.map Row.line = (Lines.ofText s).lines :=
  Lines.map_line_rowsFrom _ _

@[simp] theorem length_rows (s : Text) : s.rows.length = (Lines.ofText s).lines.length := by
  rw [← map_line_rows, List.length_map]

/-- The text is empty or ends with a break. -/
def EndsLine (s : Text) : Prop :=
  ∀ c ∈ s.getLast?, c = '\n' ∨ c = '\r'

instance (s : Text) : Decidable s.EndsLine :=
  match h : s.getLast? with
  | none => isTrue (by simp [EndsLine, h])
  | some c => decidable_of_iff (c = '\n' ∨ c = '\r') (by simp [EndsLine, h])

theorem endsLine_cons {c : Char} {s : Text} (hs : s ≠ []) : EndsLine (c :: s) ↔ s.EndsLine := by
  cases s with
  | nil => exact absurd rfl hs
  | cons d s => simp [EndsLine, List.getLast?_cons_cons]

theorem getLast?_lines_start (b : Break) (l : Lines) :
    (l.start b).lines.getLast? = l.lines.getLast? := by
  simp [Lines.start, Lines.lines, List.getLast?_cons_cons]

theorem endsLine_of_break {c : Char} {s : Text} (hc : c = '\n' ∨ c = '\r') :
    EndsLine (c :: s) ↔ s.EndsLine := by
  cases s with
  | nil => simpa [EndsLine] using hc
  | cons d s => exact endsLine_cons (by simp)

/-- The last line of a text is empty if nothing or a break ends the text. -/
theorem getLast?_lines_eq (s : Text) : (Lines.ofText s).lines.getLast? = some [] ↔ s.EndsLine := by
  fun_induction Lines.ofText s with
  | case1 => simp [Lines.lines, EndsLine]
  | case2 s ih =>
    rw [getLast?_lines_start, ih, endsLine_cons (by simp), endsLine_of_break (Or.inl rfl)]
  | case3 s _ ih => rw [getLast?_lines_start, ih, endsLine_of_break (Or.inr rfl)]
  | case4 s ih => rw [getLast?_lines_start, ih, endsLine_of_break (Or.inl rfl)]
  | case5 c s _ hcr hlf ih =>
    cases hrest : (Lines.ofText s).rest with
    | nil =>
      have hfirst : (Lines.ofText s).first = s := by
        have := Lines.toText_ofText s
        simpa [Lines.toText, hrest] using this
      cases s with
      | nil =>
        have hc : ¬ (c = '\n' ∨ c = '\r') := by
          rintro (h | h)
          · exact hlf h
          · exact hcr h
        simpa [Lines.lines, Lines.push, hrest, EndsLine] using hc
      | cons d s =>
        have hlines : (Lines.ofText (d :: s)).lines.getLast? = some (d :: s) := by
          simp [Lines.lines, hrest, hfirst]
        rw [hlines] at ih
        rw [endsLine_cons (by simp), ← ih]
        simp [Lines.lines, Lines.push, hrest]
    | cons p rest =>
      have hs : s ≠ [] := by
        rintro rfl
        simp [Lines.ofText] at hrest
      rw [endsLine_cons hs, ← ih]
      simp [Lines.lines, Lines.push, hrest, List.getLast?_cons_cons]

theorem lineCount_eq (s : Text) :
    s.lineCount = if s.EndsLine then s.rows.length - 1 else s.rows.length := by
  rw [lineCount, Lines.count, length_rows, Lines.length_lines, Lines.breaks, List.length_map]
  by_cases h : s.EndsLine
  · rw [if_pos h, if_pos ((getLast?_lines_eq s).mpr h), Nat.add_sub_cancel]
  · rw [if_neg h, if_neg (mt (getLast?_lines_eq s).mp h)]

theorem lineCount_le (s : Text) : s.lineCount ≤ s.rows.length := by
  rw [lineCount_eq]
  split <;> omega

/-- The last row has no break; its line is empty if nothing or a break ends the text. -/
theorem exists_last_row (s : Text) :
    ∃ head line, s.rows = head ++ [⟨line, []⟩] ∧ (line = [] ↔ s.EndsLine) := by
  rcases List.eq_nil_or_concat s.rows with hnil | ⟨head, r, hrows⟩
  · have := congrArg List.length hnil
    simp [Lines.lines] at this
  · refine ⟨head, r.line, ?_, ?_⟩
    · have hend : r.ending = [] := by
        have := Lines.map_ending_rowsFrom (Lines.ofText s).first (Lines.ofText s).rest
        rw [← Lines.rows, ← rows, hrows] at this
        simpa using congrArg List.getLast? this
      rw [hrows, List.concat_eq_append, ← hend]
    · rw [← getLast?_lines_eq, ← map_line_rows, hrows]
      simp

end Text

end DocTree
