import DocTree.Proofs.Edit.Order
import DocTree.Proofs.Text.Rows

/-!
# One edit on rows

A draft that has as many breaks as it needs is a list of rows. On rows an edit within the text is
one of three things: a block in place of some rows, a block in front of a row, or a block after the
last row. No other row is touched.
-/
namespace DocTree

namespace Draft

/-- The draft is these rows: their lines, and their breaks up to the last row, which has none. -/
structure HasRows (d : Draft) (rows : List Row) : Prop where
  lines : d.lines = rows.map Row.line
  breaks : d.breaks.map Break.toText ++ [[]] = rows.map Row.ending

theorem hasRows_ofText (s : Text) : (ofText s).HasRows s.rows := by
  constructor
  · exact s.map_line_rows.symm
  · simp [ofText, Text.rows, Lines.rows, Lines.map_ending_rowsFrom, Lines.breaks]

theorem HasRows.length {d : Draft} {rows : List Row} (h : d.HasRows rows) :
    rows.length = d.breaks.length + 1 := by
  have := congrArg List.length h.breaks
  simpa using this.symm

theorem interleave_eq_join (breaks : List Break) (first : Text) (rows : List Row)
    (h : breaks.map Break.toText ++ [[]] = first :: rows.map Row.ending) :
    interleave Break.toText breaks (rows.map Row.line) = first ++ Row.join rows := by
  induction rows generalizing breaks first with
  | nil =>
    cases breaks with
    | nil => simp_all [interleave]
    | cons b breaks => simp at h
  | cons r rows ih =>
    cases breaks with
    | nil => simp at h
    | cons b breaks =>
      simp only [List.map_cons, List.cons_append, List.cons.injEq] at h
      obtain ⟨hb, hrest⟩ := h
      simp [interleave, ih breaks r.ending hrest, hb]

/-- The text of a draft is its rows one after another. -/
theorem HasRows.toText {d : Draft} {rows : List Row} (h : d.HasRows rows) :
    d.toText = Row.join rows := by
  cases rows with
  | nil =>
    have := h.length
    simp at this
  | cons r rows =>
    rw [Draft.toText, join, h.lines]
    simpa using congrArg (r.line ++ ·) (interleave_eq_join d.breaks r.ending rows h.breaks)

theorem HasRows.length_head {d : Draft} {head tail : List Row} {r : Row}
    (h : d.HasRows (head ++ r :: tail)) : head.length ≤ d.breaks.length := by
  have := h.length
  simp at this
  omega

/-- The breaks before a row are the endings of the rows before it. -/
theorem HasRows.take_breaks {d : Draft} {head tail : List Row} {r : Row}
    (h : d.HasRows (head ++ r :: tail)) :
    (d.breaks.take head.length).map Break.toText = head.map Row.ending := by
  have := congrArg (List.take head.length) h.breaks
  simpa [List.take_append, List.map_take, h.length_head] using this

/-- The breaks from a row on are the endings from there on. -/
theorem HasRows.drop_breaks {d : Draft} {head tail : List Row} {r : Row}
    (h : d.HasRows (head ++ r :: tail)) :
    (d.breaks.drop head.length).map Break.toText ++ [[]] =
      r.ending :: tail.map Row.ending := by
  have := congrArg (List.drop head.length) h.breaks
  simpa [List.drop_append, List.map_drop, Nat.sub_eq_zero_of_le h.length_head] using this

theorem apply_range (d : Draft) {e : Edit} {first past : Nat} (hs : e.span.start = first + 1)
    (hp : e.span.past = past + 1) (h : first < past) :
    d.apply e = ⟨d.lines.take first ++ e.content :: d.lines.drop past,
      d.breaks.take first ++ d.breaks.drop (past - 1)⟩ := by
  simp [apply, hs, hp, h]

theorem apply_place (d : Draft) {e : Edit} {first : Nat} (hs : e.span.start = first + 1)
    (hp : e.span.past = e.span.start) :
    d.apply e = ⟨d.lines.take first ++ e.content :: d.lines.drop first,
      d.breaks.take first ++ .lf :: d.breaks.drop first⟩ := by
  simp [apply, hs, hp]

theorem HasRows.ending_last {d : Draft} {head : List Row} {r : Row}
    (h : d.HasRows (head ++ [r])) : r.ending = [] := by
  have hl := congrArg List.getLast? h.breaks
  simpa using hl.symm

/-- A block in place of some rows. What followed the last of them follows the block. -/
theorem HasRows.replace {d : Draft} {head mid tail : List Row} {r : Row} {e : Edit}
    (h : d.HasRows (head ++ (mid ++ r :: tail))) (hs : e.span.start = head.length + 1)
    (hp : e.span.past = head.length + mid.length + 2) :
    (d.apply e).HasRows (head ++ ⟨e.content, r.ending⟩ :: tail) := by
  have hbefore : (d.breaks.take head.length).map Break.toText = head.map Row.ending := by
    cases mid with
    | nil => exact h.take_breaks
    | cons m mid => exact h.take_breaks
  have hlines : d.lines = head.map Row.line ++ (mid ++ [r]).map Row.line ++ tail.map Row.line := by
    simp [h.lines]
  rw [← List.append_assoc] at h
  rw [apply_range d hs hp (by omega)]
  constructor
  · rw [hlines, List.drop_left' (by simp; omega), List.append_assoc, List.take_left' (by simp)]
    simp
  · have hafter := h.drop_breaks
    rw [List.length_append] at hafter
    simp only [List.map_append, List.append_assoc, Nat.add_sub_cancel]
    rw [hbefore, hafter]
    simp

/-- A block in front of a row. -/
theorem HasRows.insert {d : Draft} {head tail : List Row} {r : Row} {e : Edit}
    (h : d.HasRows (head ++ r :: tail)) (hs : e.span.start = head.length + 1)
    (hp : e.span.past = e.span.start) :
    (d.apply e).HasRows (head ++ ⟨e.content, ['\n']⟩ :: r :: tail) := by
  rw [apply_place d hs hp]
  constructor
  · simp [h.lines]
  · simp only [List.map_append, List.map_cons, List.append_assoc, List.cons_append]
    rw [h.take_breaks, h.drop_breaks]
    rfl

/-- A block in front of everything. -/
theorem HasRows.insert_first {d : Draft} {rows : List Row} {e : Edit} (h : d.HasRows rows)
    (hs : e.span.start = 1) (hp : e.span.past = e.span.start) :
    (d.apply e).HasRows (⟨e.content, ['\n']⟩ :: rows) := by
  cases rows with
  | nil =>
    have := h.length
    simp at this
  | cons r rest => exact @HasRows.insert d [] rest r e h hs hp

/-- A block after the last row, which gets a break. -/
theorem HasRows.append {d : Draft} {head : List Row} {r : Row} {e : Edit}
    (h : d.HasRows (head ++ [r])) (hs : e.span.start = head.length + 2)
    (hp : e.span.past = e.span.start) :
    (d.apply e).HasRows (head ++ [⟨r.line, ['\n']⟩, ⟨e.content, []⟩]) := by
  have hl : d.breaks.length = head.length := by
    have := h.length
    simp at this
    omega
  have hlines : d.lines.length = head.length + 1 := by simp [h.lines]
  have hb := h.take_breaks
  rw [List.take_of_length_le (by omega)] at hb
  rw [apply_place d hs hp, List.take_of_length_le (by omega), List.drop_of_length_le (by omega),
    List.take_of_length_le (by omega), List.drop_of_length_le (by omega)]
  constructor
  · simp [h.lines]
  · simp [hb, Break.toText]

/-- A place is in front of a row or after the last one. -/
theorem HasRows.exists_row {d : Draft} {rows : List Row} {n : Nat} (h : d.HasRows rows)
    (hpos : 0 < n) (hn : n ≤ rows.length + 1) :
    (∃ head r tail, rows = head ++ r :: tail ∧ n = head.length + 1) ∨
      ∃ head r, rows = head ++ [r] ∧ n = head.length + 2 := by
  have hrows := h.length
  by_cases hlast : n ≤ rows.length
  · obtain ⟨head, r, tail, rfl, hhead⟩ := exists_split rows (n := n - 1) (by omega)
    exact Or.inl ⟨head, r, tail, rfl, by omega⟩
  · obtain ⟨head, r, tail, rfl, hhead⟩ := exists_split rows (n := rows.length - 1) (by omega)
    simp only [List.length_append, List.length_cons] at hhead hlast hn
    have htail : tail = [] := List.eq_nil_of_length_eq_zero (by omega)
    subst htail
    simp only [List.length_nil] at hlast hn
    exact Or.inr ⟨head, r, rfl, by omega⟩

end Draft

/-- The rows of a range, the last of them by itself, and those around them. -/
theorem Span.exists_rows {s : Span} {rows : List Row} (hrange : ¬ s.IsPlace)
    (hin : s.past ≤ rows.length + 1) :
    ∃ head mid r tail, rows = head ++ (mid ++ r :: tail) ∧ s.start = head.length + 1 ∧
      s.past = head.length + mid.length + 2 := by
  have hpos := s.start_pos
  have hle := s.start_le_past
  have hlt : s.start < s.past := by
    unfold IsPlace at hrange
    omega
  obtain ⟨head, m, rest, rfl, hhead⟩ := exists_split rows (n := s.start - 1) (by omega)
  obtain ⟨mid, r, tail, hrest, hmid⟩ :=
    exists_split (m :: rest) (n := s.past - s.start - 1) (by simp at hin ⊢; omega)
  rw [hrest]
  exact ⟨head, mid, r, tail, rfl, by omega, by omega⟩

end DocTree
