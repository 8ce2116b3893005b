import DocTree.Proofs.Markdown.Cut
import DocTree.Proofs.Markdown.Renumber
import DocTree.Proofs.Text.Lines

/-!
# Lines of a document

The lines of a text that ends its last one, with another text behind it, are those of both, the
second ones numbered on.
-/
namespace DocTree.Markdown.Line

theorem numbered_append (n : Nat) (lines more : List Text) :
    numbered n (lines ++ more) = numbered n lines ++ numbered (n + lines.length) more := by
  induction lines generalizing n with
  | nil => rfl
  | cons s rest ih =>
    rw [List.cons_append, numbered, numbered, ih, List.length_cons,
      show n + 1 + rest.length = n + (rest.length + 1) by omega]
    rfl

theorem numbered_add (n k : Nat) (lines : List Text) :
    numbered (n + k) lines = (numbered n lines).map (renumber (· + k)) := by
  induction lines generalizing n with
  | nil => rfl
  | cons s rest ih =>
    rw [numbered, numbered, show n + k + 1 = n + 1 + k by omega, ih]
    rfl

@[simp] theorem length_numbered (n : Nat) (lines : List Text) :
    (numbered n lines).length = lines.length := by
  induction lines generalizing n with
  | nil => rfl
  | cons s rest ih => simp [numbered, ih]

/-- The lines of a text that a reader sees, all but a blank one at the end. -/
def keptLines (s : Text) : List Text :=
  let lines := (Lines.ofText s).lines
  (if (lines.getLastD []).all Text.isGap then lines.dropLast else lines).map withoutNull

theorem ofText_eq (s : Text) : ofText s = numbered 0 (keptLines s) := rfl

theorem keptLines_of_endsLine {s : Text} (hs : s.EndsLine) :
    keptLines s = ((Lines.ofText s).lines.dropLast).map withoutNull := by
  have hlast := (Text.getLast?_lines_eq s).mpr hs
  simp [keptLines, List.getLastD_eq_getLast?, hlast]

theorem length_keptLines {s : Text} (hs : s.EndsLine) : (keptLines s).length = s.lineCount := by
  rw [keptLines_of_endsLine hs, Text.lineCount_eq, if_pos hs]
  simp

theorem keptLines_append {s t : Text} (hs : s.EndsLine) (h : Text.MeetsAt s t) :
    keptLines (s ++ t) = keptLines s ++ keptLines t := by
  have hlast : ((Lines.ofText s).lines.dropLast ++ (Lines.ofText t).lines).getLastD [] =
      (Lines.ofText t).lines.getLastD [] := by
    rw [List.getLastD_eq_getLast?, List.getLastD_eq_getLast?, List.getLast?_append_of_ne_nil _
      (Lines.lines_ne_nil _)]
  rw [keptLines_of_endsLine hs]
  simp only [keptLines, Text.lines_append hs h, hlast]
  split
  · rw [List.dropLast_append_of_ne_nil (Lines.lines_ne_nil _), List.map_append]
  · rw [List.map_append]

/-- Behind a text that ends its last line the lines of another one are numbered on. -/
theorem ofText_append {s t : Text} (hs : s.EndsLine) (h : Text.MeetsAt s t) :
    ofText (s ++ t) = ofText s ++ (ofText t).map (renumber (· + s.lineCount)) := by
  rw [ofText_eq, keptLines_append hs h, numbered_append, length_keptLines hs, numbered_add,
    ofText_eq, ofText_eq]

/-- A break behind the last line makes a reader see that line, blank or not. -/
theorem keptLines_break {s : Text} (hs : ¬ s.EndsLine) :
    keptLines (s ++ ['\n']) = (Lines.ofText s).lines.map withoutNull := by
  rw [keptLines_of_endsLine (by simp [Text.EndsLine]), Text.lines_append_break hs,
    List.dropLast_concat]

/-- A line of blanks is empty. -/
theorem isEmpty_ofBlanks {line : Text} (h : ∀ c ∈ line, Text.isGap c) (index : Nat) :
    (ofBlanks index 0 0 (withoutNull line)).isEmpty := by
  have hblank : ∀ c ∈ withoutNull line, Text.isGap c := by
    intro c hc
    obtain ⟨d, hd, rfl⟩ := List.mem_map.mp hc
    split
    · rename_i hnull
      subst hnull
      exact absurd (h _ hd) (by decide)
    · exact h d hd
  simp [isEmpty, content, ofBlanks, List.takeWhile_eq_self_iff.mpr hblank]

/-- To a reader a break behind the last line adds at most an empty line. -/
theorem ofText_ended (s : Text) :
    ∃ gap, (∀ e ∈ gap, e.isEmpty) ∧ ofText s.ended = ofText s ++ gap := by
  unfold Text.ended
  split
  · exact ⟨[], by simp, by simp⟩
  · rename_i hs
    rw [ofText_eq, keptLines_break hs, ofText_eq, keptLines]
    split
    · rename_i hblank
      obtain ⟨line, hline, -⟩ := Text.exists_getLast?_lines hs
      rw [List.getLastD_eq_getLast?, hline, Option.getD_some, List.all_eq_true] at hblank
      have hlines := List.dropLast_append_getLast? line hline
      refine ⟨numbered (0 + ((Lines.ofText s).lines.dropLast.map withoutNull).length)
        [withoutNull line], ?_, ?_⟩
      · intro e he
        rw [List.mem_singleton.mp he]
        exact isEmpty_ofBlanks hblank _
      · rw [← numbered_append, ← List.map_singleton, ← List.map_append, hlines]
    · exact ⟨[], by simp, by simp⟩

/-- A break behind a last line that is not blank is nothing to a reader. -/
theorem ofText_break {s : Text} {c : Char} (hs : s.getLast? = some c)
    (hc : ¬ (c = '\n' ∨ c = '\r')) (hgap : Text.isGap c = false) :
    ofText (s ++ ['\n']) = ofText s := by
  have hends : ¬ s.EndsLine := fun h => hc (h c hs)
  obtain ⟨line, hline, hlast⟩ := Text.exists_getLast?_lines hends
  have hmem : c ∈ line := List.mem_of_getLast? (hlast.trans hs)
  have hblank : ((Lines.ofText s).lines.getLastD []).all Text.isGap = false := by
    rw [List.getLastD_eq_getLast?, hline, Option.getD_some, List.all_eq_false]
    exact ⟨c, hmem, by simp [hgap]⟩
  rw [ofText_eq, keptLines_break hends, ofText_eq, keptLines, hblank, if_neg (by simp)]

theorem keptLines_ofLines {lines : List Text} (h : ∀ line ∈ lines, Text.Unbroken line) :
    keptLines (Text.ofLines lines) = lines.map withoutNull := by
  rw [keptLines_of_endsLine (Text.endsLine_ofLines lines), Text.lines_ofLines h]
  simp

theorem withoutNull_unbroken {s : Text} (h : s.Unbroken) : (withoutNull s).Unbroken := by
  have hmem : ∀ c ∈ withoutNull s, c ∈ s ∨ c = Char.ofNat 0xFFFD := by
    intro c hc
    obtain ⟨d, hd, rfl⟩ := List.mem_map.mp hc
    split
    · exact Or.inr rfl
    · exact Or.inl hd
  constructor
  · intro hc
    exact (hmem _ hc).elim h.1 (by decide)
  · intro hc
    exact (hmem _ hc).elim h.2 (by decide)

theorem exists_of_mem_numbered {n : Nat} {lines : List Text} {l : Line}
    (hl : l ∈ numbered n lines) : ∃ index, ∃ line ∈ lines, l = ofBlanks index 0 0 line := by
  induction lines generalizing n with
  | nil => cases hl
  | cons s rest ih =>
    rcases List.mem_cons.mp hl with rfl | hl
    · exact ⟨n, s, by simp, rfl⟩
    · obtain ⟨index, line, hline, rfl⟩ := ih hl
      exact ⟨index, line, by simp [hline], rfl⟩

theorem clean_of_mem_numbered {n : Nat} {lines : List Text}
    (h : ∀ line ∈ lines, Text.Unbroken line) {l : Line} (hl : l ∈ numbered n lines) : l.Clean := by
  obtain ⟨index, line, hline, rfl⟩ := exists_of_mem_numbered hl
  exact ⟨Int.natCast_nonneg _, (h line hline).1⟩

theorem clean_of_mem_ofText {s : Text} {l : Line} (hl : l ∈ ofText s) : l.Clean := by
  have hkept : ∀ line ∈ keptLines s, Text.Unbroken line := by
    intro line hline
    obtain ⟨written, hwritten, rfl⟩ := List.mem_map.mp hline
    refine withoutNull_unbroken (Text.unbroken_of_mem_lines (s := s) ?_)
    split at hwritten
    · exact List.dropLast_subset _ hwritten
    · exact hwritten
  exact clean_of_mem_numbered hkept hl

end DocTree.Markdown.Line
