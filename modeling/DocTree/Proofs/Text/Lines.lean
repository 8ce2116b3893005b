import DocTree.Proofs.Text.Rows

/-!
# Rows that a text is cut into

A text has one cut into rows: no line holds a break, every row but the last ends with one, and no
break is cut in two. So two texts one after another have the rows of both if the first ends its
last line, and rows that are taken from a text are those of the text they make up.
-/
namespace DocTree

namespace Text

def Unbroken (s : Text) : Prop :=
  '\n' ∉ s ∧ '\r' ∉ s

instance (s : Text) : Decidable s.Unbroken :=
  inferInstanceAs (Decidable ('\n' ∉ s ∧ '\r' ∉ s))

theorem unbroken_cons {c : Char} {s : Text} :
    Unbroken (c :: s) ↔ c ≠ '\n' ∧ c ≠ '\r' ∧ s.Unbroken := by
  simp only [Unbroken, List.mem_cons, not_or, ne_eq]
  constructor
  · rintro ⟨⟨hlf, hslf⟩, hcr, hscr⟩
    exact ⟨fun h => hlf h.symm, fun h => hcr h.symm, hslf, hscr⟩
  · rintro ⟨hlf, hcr, hslf, hscr⟩
    exact ⟨⟨fun h => hlf h.symm, hslf⟩, fun h => hcr h.symm, hscr⟩

theorem unbroken_append {s t : Text} : Unbroken (s ++ t) ↔ s.Unbroken ∧ t.Unbroken := by
  simp only [Unbroken, List.mem_append, not_or]
  tauto

/-- No break begins in the first text and ends in the second. -/
def MeetsAt (s t : Text) : Prop :=
  ¬ (s.getLast? = some '\r' ∧ t.head? = some '\n')

theorem meetsAt_nil (t : Text) : MeetsAt [] t := by
  simp [MeetsAt]

theorem MeetsAt.of_append_left {s u t : Text} (h : MeetsAt (s ++ u) t) : MeetsAt u t := by
  cases u with
  | nil => exact meetsAt_nil t
  | cons c u => simpa [MeetsAt, List.getLast?_append_of_ne_nil] using h

theorem MeetsAt.of_append_right {s u v : Text} (h : MeetsAt s (u ++ v)) : MeetsAt s u := by
  cases u with
  | nil => simp [MeetsAt]
  | cons c u => exact h

theorem MeetsAt.append_right {s u v : Text} (h : MeetsAt s u) (hv : u = [] → MeetsAt s v) :
    MeetsAt s (u ++ v) := by
  cases u with
  | nil => exact hv rfl
  | cons c u => exact h

theorem MeetsAt.append_left {s u t : Text} (h : MeetsAt u t) (hs : u = [] → MeetsAt s t) :
    MeetsAt (s ++ u) t := by
  cases u with
  | nil => simpa using hs rfl
  | cons c u => simpa [MeetsAt, List.getLast?_append_of_ne_nil] using h

theorem meetsAt_of_head?_ne {t : Text} (h : t.head? ≠ some '\n') (s : Text) : MeetsAt s t :=
  fun hmeets => h hmeets.2

end Text

namespace Row

inductive Cut : List Row → Prop
  | last {line : Text} (h : line.Unbroken) : Cut [⟨line, []⟩]
  | cons {line : Text} {b : Break} {rows : List Row} (h : line.Unbroken)
      (hmeets : Text.MeetsAt b.toText (join rows)) (hrows : Cut rows) :
      Cut (⟨line, b.toText⟩ :: rows)

theorem Cut.ne_nil {rows : List Row} (h : Cut rows) : rows ≠ [] := by
  cases h <;> simp

theorem Cut.unbroken {rows : List Row} (h : Cut rows) : ∀ r ∈ rows, r.line.Unbroken := by
  induction h with
  | last h => simpa using h
  | cons h _ _ ih => simpa using ⟨h, ih⟩

end Row

namespace Lines

theorem lines_ne_nil (l : Lines) : l.lines ≠ [] := by
  simp [lines]

theorem rows_push {l : Lines} {r : Row} {more : List Row} (h : l.rows = r :: more) (c : Char) :
    (l.push c).rows = ⟨c :: r.line, r.ending⟩ :: more := by
  obtain ⟨first, rest⟩ := l
  cases rest <;> cases h <;> rfl

end Lines

namespace Text

theorem cut_rows (s : Text) : Row.Cut s.rows := by
  have hnil : Unbroken [] := by decide
  have hjoin : ∀ s : Text, Row.join (Lines.ofText s).rows = s := join_rows
  unfold rows
  fun_induction Lines.ofText s with
  | case1 => exact .last hnil
  | case2 s ih => exact .cons hnil (by simp [MeetsAt, Break.toText]) ih
  | case3 s hne ih =>
    have hmeets : MeetsAt Break.cr.toText (Row.join (Lines.ofText s).rows) := by
      rw [hjoin]
      exact fun h => hne _ (List.eq_cons_of_mem_head? h.2)
    exact .cons hnil hmeets ih
  | case4 s ih => exact .cons hnil (by simp [MeetsAt, Break.toText]) ih
  | case5 c s _ hcr hlf ih =>
    generalize hrows : (Lines.ofText s).rows = rows at ih
    cases ih with
    | last h =>
      rw [Lines.rows_push hrows]
      exact .last (unbroken_cons.mpr ⟨hlf, hcr, h⟩)
    | cons h hmeets hmore =>
      rw [Lines.rows_push hrows]
      exact .cons (unbroken_cons.mpr ⟨hlf, hcr, h⟩) hmeets hmore

/-- A line and the break after it are the first row of a text. -/
theorem rows_line {line : Text} (h : line.Unbroken) {b : Break} {t : Text}
    (hmeets : MeetsAt b.toText t) : rows (line ++ b.toText ++ t) = ⟨line, b.toText⟩ :: t.rows := by
  induction line with
  | nil =>
    cases b with
    | lf => rfl
    | crlf => rfl
    | cr =>
      have hsplit : Lines.ofText ('\r' :: t) = (Lines.ofText t).start .cr := by
        refine Lines.ofText.eq_3 _ ?_
        rintro more rfl
        exact hmeets ⟨rfl, rfl⟩
      exact congrArg Lines.rows hsplit
  | cons c line ih =>
    obtain ⟨hlf, hcr, hline⟩ := unbroken_cons.mp h
    have hpush : Lines.ofText (c :: (line ++ b.toText ++ t)) =
        (Lines.ofText (line ++ b.toText ++ t)).push c :=
      Lines.ofText.eq_5 _ _ (fun _ h => absurd h hcr) hcr hlf
    rw [List.cons_append, List.cons_append, rows, hpush, Lines.rows_push (ih hline)]

theorem rows_unbroken {line : Text} (h : line.Unbroken) : rows line = [⟨line, []⟩] := by
  induction line with
  | nil => rfl
  | cons c line ih =>
    obtain ⟨hlf, hcr, hline⟩ := unbroken_cons.mp h
    have hpush : Lines.ofText (c :: line) = (Lines.ofText line).push c :=
      Lines.ofText.eq_5 _ _ (fun _ h => absurd h hcr) hcr hlf
    rw [rows, hpush, Lines.rows_push (ih hline)]

/-- Rows that a text may be cut into are those of the text they make up. -/
theorem rows_join {rows : List Row} (h : Row.Cut rows) : Text.rows (Row.join rows) = rows := by
  induction h with
  | last h => simpa using rows_unbroken h
  | cons h hmeets _ ih => rw [Row.join_cons, rows_line h hmeets, ih]

end Text

namespace Row

variable {head rows tail : List Row} {r : Row}

theorem Cut.exists_break (h : Cut (r :: rows)) (hne : rows ≠ []) :
    r.line.Unbroken ∧ ∃ b : Break, r = ⟨r.line, b.toText⟩ ∧
      Text.MeetsAt b.toText (join rows) ∧ Cut rows := by
  cases h with
  | last => exact absurd rfl hne
  | cons h hmeets hrows => exact ⟨h, _, rfl, hmeets, hrows⟩

@[simp] theorem join_append_empty (rows : List Row) : join (rows ++ [⟨[], []⟩]) = join rows := by
  simp

/-- Rows take the place of an empty last row. -/
theorem Cut.append (h : Cut (head ++ [⟨[], []⟩])) (hrows : Cut rows)
    (hmeets : Text.MeetsAt (join head) (join rows)) : Cut (head ++ rows) := by
  induction head with
  | nil => exact hrows
  | cons r head ih =>
    rw [List.cons_append] at h ⊢
    obtain ⟨hline, b, hr, hbreak, hmore⟩ := h.exists_break (by simp)
    rw [join_append_empty] at hbreak
    rw [hr] at hmeets ⊢
    rw [join_cons] at hmeets
    refine .cons hline ?_ (ih hmore hmeets.of_append_left)
    rw [join_append]
    refine hbreak.append_right fun hempty => ?_
    rw [hempty, List.append_nil] at hmeets
    exact hmeets.of_append_left

/-- Rows in front of a row, with an empty one behind them. -/
theorem Cut.take (h : Cut (head ++ r :: tail)) : Cut (head ++ [⟨[], []⟩]) := by
  induction head with
  | nil => exact .last (by decide)
  | cons r' head ih =>
    rw [List.cons_append] at h ⊢
    obtain ⟨hline, b, hr, hbreak, hmore⟩ := h.exists_break (by simp)
    rw [hr]
    refine .cons hline ?_ (ih hmore)
    rw [join_append] at hbreak
    rw [join_append_empty]
    exact hbreak.of_append_right

/-- Where rows are cut in two no break is. -/
theorem Cut.meetsAt (h : Cut (head ++ r :: tail)) :
    Text.MeetsAt (join head) (join (r :: tail)) := by
  induction head with
  | nil => exact Text.meetsAt_nil _
  | cons r' head ih =>
    rw [List.cons_append] at h
    obtain ⟨-, b, hr, hbreak, hmore⟩ := h.exists_break (by simp)
    rw [join_append] at hbreak
    rw [hr, join_cons, List.append_assoc]
    refine Text.MeetsAt.append_left ((ih hmore).append_left fun hempty => ?_) fun hempty => ?_
    · rwa [hempty] at hbreak
    · cases b <;> simp [Break.toText] at hempty

end Row

namespace Text

variable {s t : Text}

/-- The rows of a text that ends its last line are rows with an empty one behind them. -/
theorem exists_rows_of_endsLine (hs : s.EndsLine) : ∃ head, s.rows = head ++ [⟨[], []⟩] := by
  obtain ⟨head, line, hrows, hline⟩ := s.exists_last_row
  exact ⟨head, by rw [hrows, hline.mpr hs]⟩

/-- A text that ends its last line comes apart from what follows it row by row. -/
theorem rows_append (hs : s.EndsLine) (h : MeetsAt s t) :
    rows (s ++ t) = s.rows.dropLast ++ t.rows := by
  obtain ⟨head, hrows⟩ := exists_rows_of_endsLine hs
  have hcut := s.cut_rows
  have hjoin := s.join_rows
  rw [hrows] at hcut hjoin
  rw [Row.join_append_empty] at hjoin
  rw [hrows, List.dropLast_concat]
  have hall := rows_join (hcut.append t.cut_rows (by rw [hjoin, join_rows]; exact h))
  rwa [Row.join_append, hjoin, join_rows] at hall

/-- So do its lines. -/
theorem lines_append (hs : s.EndsLine) (h : MeetsAt s t) :
    (Lines.ofText (s ++ t)).lines = (Lines.ofText s).lines.dropLast ++ (Lines.ofText t).lines := by
  rw [← map_line_rows, rows_append hs h, List.map_append, List.map_dropLast, map_line_rows,
    map_line_rows]

theorem endsLine_append (hs : s.EndsLine) : EndsLine (s ++ t) ↔ t.EndsLine := by
  cases t with
  | nil => simpa [EndsLine] using hs
  | cons c t => simp [EndsLine]

theorem lineCount_append (hs : s.EndsLine) (h : MeetsAt s t) :
    lineCount (s ++ t) = s.lineCount + t.lineCount := by
  have hcount := congrArg List.length (rows_append hs h)
  have hpos := List.length_pos_iff.mpr t.cut_rows.ne_nil
  rw [List.length_append, List.length_dropLast] at hcount
  rw [lineCount_eq, lineCount_eq s, lineCount_eq t, if_pos hs, hcount]
  simp only [endsLine_append hs]
  split <;> omega

/-- The rows in front of a row make up a text that ends its last line. -/
theorem rows_join_take {n : Nat} (h : n < s.rows.length) :
    rows (Row.join (s.rows.take n)) = s.rows.take n ++ [⟨[], []⟩] := by
  obtain ⟨head, r, tail, hrows, hhead⟩ := exists_split s.rows h
  have hcut := s.cut_rows
  rw [hrows] at hcut
  have htake : s.rows.take n = head := by rw [hrows, List.take_left' hhead]
  have hjoin := rows_join hcut.take
  rwa [Row.join_append_empty, ← htake] at hjoin

theorem endsLine_join_take {n : Nat} (h : n < s.rows.length) :
    EndsLine (Row.join (s.rows.take n)) := by
  rw [← getLast?_lines_eq, ← map_line_rows, rows_join_take h]
  simp

theorem meetsAt_join_take_drop {n : Nat} (h : n < s.rows.length) :
    MeetsAt (Row.join (s.rows.take n)) (Row.join (s.rows.drop n)) := by
  obtain ⟨head, r, tail, hrows, hhead⟩ := exists_split s.rows h
  have hcut := s.cut_rows
  rw [hrows] at hcut ⊢
  rw [List.take_left' hhead, List.drop_left' hhead]
  exact hcut.meetsAt

/-- A break behind a text ends its last row if that has none. -/
theorem rows_append_break (hs : ¬ s.EndsLine) {head : List Row} {line : Text}
    (hrows : s.rows = head ++ [⟨line, []⟩]) :
    rows (s ++ ['\n']) = head ++ [⟨line, ['\n']⟩, ⟨[], []⟩] := by
  have hcut := s.cut_rows
  have hjoin := s.join_rows
  rw [hrows] at hcut hjoin
  have hline : line.Unbroken := hcut.unbroken ⟨line, []⟩ (by simp)
  have hlast : Row.Cut [⟨line, Break.lf.toText⟩, ⟨[], []⟩] :=
    .cons hline (by simp [MeetsAt, Break.toText]) (.last (by decide))
  have hmeets : MeetsAt (Row.join head) (Row.join [⟨line, Break.lf.toText⟩, ⟨[], []⟩]) := by
    rintro ⟨hreturn, hhead⟩
    cases line with
    | nil =>
      refine hs fun c hc => Or.inr ?_
      rw [← hjoin] at hc
      simp only [Row.join_append_empty, hreturn, Option.mem_some_iff] at hc
      exact hc.symm
    | cons c line =>
      obtain ⟨hlf, -, -⟩ := unbroken_cons.mp hline
      exact hlf (by simpa using hhead)
  have hall := rows_join (hcut.take.append hlast hmeets)
  rw [← hjoin]
  simpa [Break.toText] using hall

/-- A break behind a text that does not end its last line ends it. -/
theorem lines_append_break (hs : ¬ s.EndsLine) :
    (Lines.ofText (s ++ ['\n'])).lines = (Lines.ofText s).lines ++ [[]] := by
  obtain ⟨head, line, hrows, -⟩ := s.exists_last_row
  rw [← map_line_rows, ← map_line_rows, rows_append_break hs hrows, hrows]
  simp

theorem lineCount_append_break (hs : ¬ s.EndsLine) : lineCount (s ++ ['\n']) = s.lineCount := by
  obtain ⟨head, line, hrows, -⟩ := s.exists_last_row
  rw [lineCount_eq, lineCount_eq s, if_pos (by simp [EndsLine]), if_neg hs,
    rows_append_break hs hrows, hrows]
  simp

theorem endsLine_append_break (s t : Text) : EndsLine (s ++ '\n' :: t) ↔ t.EndsLine := by
  rw [← List.singleton_append, ← List.append_assoc]
  exact endsLine_append (by simp [EndsLine])

theorem lineCount_break_append (hs : ¬ s.EndsLine) (t : Text) :
    lineCount (s ++ '\n' :: t) = s.lineCount + t.lineCount := by
  rw [← List.singleton_append, ← List.append_assoc,
    lineCount_append (by simp [EndsLine]) (by simp [MeetsAt]), lineCount_append_break hs]

/-- The last line of a text that does not end it ends with its last character. -/
theorem exists_getLast?_lines (hs : ¬ s.EndsLine) :
    ∃ line, (Lines.ofText s).lines.getLast? = some line ∧ line.getLast? = s.getLast? := by
  obtain ⟨head, line, hrows, hline⟩ := s.exists_last_row
  have hne : line ≠ [] := fun h => hs (hline.mp h)
  have hjoin := s.join_rows
  rw [hrows] at hjoin
  refine ⟨line, ?_, ?_⟩
  · rw [← map_line_rows, hrows]
    simp
  · rw [← hjoin]
    simp [List.getLast?_append_of_ne_nil _ hne]

def ended (s : Text) : Text :=
  if s.EndsLine then s else s ++ ['\n']

theorem endsLine_ended (s : Text) : s.ended.EndsLine := by
  unfold ended
  split
  · assumption
  · simp [EndsLine]

/-- No line holds a break. -/
theorem unbroken_of_mem_lines {line : Text} (h : line ∈ (Lines.ofText s).lines) :
    line.Unbroken := by
  rw [← map_line_rows] at h
  obtain ⟨r, hr, rfl⟩ := List.mem_map.mp h
  exact s.cut_rows.unbroken r hr

def ofLines (lines : List Text) : Text :=
  lines.flatMap (· ++ ['\n'])

@[simp] theorem ofLines_nil : ofLines [] = [] := rfl

@[simp] theorem ofLines_cons (line : Text) (lines : List Text) :
    ofLines (line :: lines) = line ++ '\n' :: ofLines lines := by
  simp [ofLines]

theorem endsLine_ofLines (lines : List Text) : EndsLine (ofLines lines) := by
  rcases List.eq_nil_or_concat lines with rfl | ⟨front, last, rfl⟩
  · simp [EndsLine]
  · simp [ofLines, EndsLine]

theorem meetsAt_ofLines (lines : List Text) (t : Text) : MeetsAt (ofLines lines) t := by
  rcases List.eq_nil_or_concat lines with rfl | ⟨front, last, rfl⟩
  · exact meetsAt_nil t
  · simp [ofLines, MeetsAt]

/-- Lines without breaks in them are read off their text. -/
theorem lines_ofLines {lines : List Text} (h : ∀ line ∈ lines, Unbroken line) :
    (Lines.ofText (ofLines lines)).lines = lines ++ [[]] := by
  induction lines with
  | nil => rfl
  | cons line lines ih =>
    have hfirst := rows_line (h line (by simp)) (b := .lf) (t := ofLines lines)
      (by simp [MeetsAt, Break.toText])
    have hsplit : ofLines (line :: lines) = line ++ Break.lf.toText ++ ofLines lines := by
      simp [Break.toText]
    rw [← map_line_rows, hsplit, hfirst, List.map_cons, map_line_rows,
      ih fun other hother => h other (by simp [hother]), List.cons_append]

end Text

end DocTree
