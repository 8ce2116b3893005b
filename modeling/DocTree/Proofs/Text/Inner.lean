import DocTree.Proofs.Text.Lines

/-!
# Lines within a text

Where two texts meet, the last line of one and the first line of the other become one line. The
other lines stay as they are, so a line with breaks on both sides is a line of every text that goes
on before and behind.
-/
namespace DocTree.Text

/-- The lines of a text that have a break on both sides. -/
def inner (s : Text) : List Text :=
  (Lines.ofText s).lines.tail.dropLast

variable {s t : Text}

theorem lines_unbroken (h : s.Unbroken) : (Lines.ofText s).lines = [s] := by
  rw [← map_line_rows, rows_unbroken h]
  rfl

theorem lines_start (b : Break) (l : Lines) : (l.start b).lines = [] :: l.lines := rfl

theorem lines_push {l : Lines} {line : Text} {more : List Text} (h : l.lines = line :: more)
    (c : Char) : (l.push c).lines = (c :: line) :: more := by
  cases h
  rfl

/-- The lines of two texts that meet without a break between them. -/
theorem exists_lines_append (h : MeetsAt s t) :
    ∃ front last first rest, (Lines.ofText s).lines = front ++ [last] ∧
      (Lines.ofText t).lines = first :: rest ∧
      (Lines.ofText (s ++ t)).lines = front ++ (last ++ first) :: rest := by
  induction s using Lines.ofText.induct with
  | case1 => exact ⟨[], [], _, _, rfl, rfl, rfl⟩
  | case2 s ih =>
    obtain ⟨front, last, first, rest, hs, ht, hall⟩ := ih (h.of_append_left (s := ['\r', '\n']))
    refine ⟨[] :: front, last, first, rest, ?_, ht, ?_⟩
    · rw [Lines.ofText, lines_start, hs, List.cons_append]
    · rw [List.cons_append, List.cons_append, Lines.ofText, lines_start, hall, List.cons_append]
  | case3 s hne ih =>
    obtain ⟨front, last, first, rest, hs, ht, hall⟩ := ih (h.of_append_left (s := ['\r']))
    have hnext : ∀ more, s ++ t = '\n' :: more → False := by
      intro more hmore
      cases s with
      | nil => exact h ⟨rfl, by rw [List.nil_append] at hmore; rw [hmore]; rfl⟩
      | cons c s =>
        cases hmore
        exact hne s rfl
    refine ⟨[] :: front, last, first, rest, ?_, ht, ?_⟩
    · rw [Lines.ofText.eq_3 _ hne, lines_start, hs, List.cons_append]
    · rw [List.cons_append, Lines.ofText.eq_3 _ hnext, lines_start, hall, List.cons_append]
  | case4 s ih =>
    obtain ⟨front, last, first, rest, hs, ht, hall⟩ := ih (h.of_append_left (s := ['\n']))
    refine ⟨[] :: front, last, first, rest, ?_, ht, ?_⟩
    · rw [Lines.ofText, lines_start, hs, List.cons_append]
    · rw [List.cons_append, Lines.ofText, lines_start, hall, List.cons_append]
  | case5 c s _ hcr hlf ih =>
    obtain ⟨front, last, first, rest, hs, ht, hall⟩ := ih (h.of_append_left (s := [c]))
    rw [List.cons_append, Lines.ofText.eq_5 c s (fun _ h => absurd h hcr) hcr hlf,
      Lines.ofText.eq_5 c (s ++ t) (fun _ h => absurd h hcr) hcr hlf]
    cases front with
    | nil => exact ⟨[], c :: last, first, rest, lines_push hs c, ht, lines_push hall c⟩
    | cons line front =>
      exact ⟨(c :: line) :: front, last, first, rest, lines_push hs c, ht, lines_push hall c⟩

/-- A text that stands in front without a break only adds to the first line. -/
theorem exists_lines_unbroken_append (hs : s.Unbroken) (t : Text) :
    ∃ first rest, (Lines.ofText t).lines = first :: rest ∧
      (Lines.ofText (s ++ t)).lines = (s ++ first) :: rest := by
  have hmeets : MeetsAt s t := fun h => hs.2 (List.mem_of_getLast? h.1)
  obtain ⟨front, last, first, rest, hlines, ht, hall⟩ := exists_lines_append hmeets
  rw [lines_unbroken hs] at hlines
  cases front with
  | nil =>
    cases hlines
    exact ⟨first, rest, ht, hall⟩
  | cons line front => simp at hlines

/-- The lines of two texts with a break between them. -/
theorem lines_append_lf (hs : s.getLast? ≠ some '\r') (t : Text) :
    (Lines.ofText (s ++ '\n' :: t)).lines =
      (Lines.ofText s).lines ++ (Lines.ofText t).lines := by
  have hmeets : MeetsAt s ('\n' :: t) := fun h => hs h.1
  obtain ⟨front, last, first, rest, hlines, ht, hall⟩ := exists_lines_append hmeets
  rw [Lines.ofText, lines_start] at ht
  cases ht
  rw [hall, hlines]
  simp

end DocTree.Text
