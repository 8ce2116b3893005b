import DocTree.Proofs.Text.Lines
import DocTree.Proofs.Text.Parts

/-!
# The split of a text

A text as two lists, its lines and the breaks between them. Of all pairs of lists that put in turn
give the text back there is one in which no line holds a break and no break is cut in two, and that
is the one that the text is read into.
-/
namespace DocTree

def Text.interleaved (lines breaks : List Text) : Text :=
  Row.join (List.zipWith Row.mk lines (breaks ++ [[]]))

/-- Lines without breaks in them, and breaks between them none of which is the second half of the
one before. -/
structure IsSplit (lines breaks : List Text) : Prop where
  length_eq : lines.length = breaks.length + 1
  unbroken : ∀ line ∈ lines, line.Unbroken
  isBreak : ∀ b ∈ breaks, b = ['\r', '\n'] ∨ b = ['\r'] ∨ b = ['\n']
  whole : ∀ i, breaks[i]? = some ['\r'] → lines[i + 1]? = some [] → breaks[i + 1]? ≠ some ['\n']

namespace IsSplit

variable {line next b : Text} {lines breaks : List Text}

theorem single_iff : IsSplit [line] [] ↔ line.Unbroken := by
  constructor
  · intro h
    exact h.unbroken line (by simp)
  · intro h
    exact ⟨rfl, by simpa using h, by simp, by simp⟩

theorem cons_iff : IsSplit (line :: next :: lines) (b :: breaks) ↔
    line.Unbroken ∧ (b = ['\r', '\n'] ∨ b = ['\r'] ∨ b = ['\n']) ∧
      (b = ['\r'] → next = [] → breaks.head? ≠ some ['\n']) ∧ IsSplit (next :: lines) breaks := by
  constructor
  · rintro ⟨hlength, hunbroken, hbreak, hwhole⟩
    obtain ⟨hline, hunbroken⟩ := List.forall_mem_cons.mp hunbroken
    obtain ⟨hb, hbreak⟩ := List.forall_mem_cons.mp hbreak
    refine ⟨hline, hb, ?_, by simpa using hlength, hunbroken, hbreak, fun i => hwhole (i + 1)⟩
    intro hreturn hnext
    simpa [List.head?_eq_getElem?] using hwhole 0 (by simp [hreturn]) (by simp [hnext])
  · rintro ⟨hline, hb, hmeets, h⟩
    refine ⟨by simp [h.length_eq], ?_, ?_, ?_⟩
    · exact List.forall_mem_cons.mpr ⟨hline, h.unbroken⟩
    · exact List.forall_mem_cons.mpr ⟨hb, h.isBreak⟩
    · rintro (_ | i)
      · simpa [List.head?_eq_getElem?] using hmeets
      · exact h.whole i

end IsSplit

namespace Row

variable {line next b : Text} {lines breaks : List Text}

theorem exists_toText_iff :
    (∃ c : Break, c.toText = b) ↔ b = ['\r', '\n'] ∨ b = ['\r'] ∨ b = ['\n'] := by
  constructor
  · rintro ⟨c, rfl⟩
    cases c <;> simp [Break.toText]
  · rintro (rfl | rfl | rfl)
    · exact ⟨.crlf, rfl⟩
    · exact ⟨.cr, rfl⟩
    · exact ⟨.lf, rfl⟩

/-- A break and the one after the next line are one only if they are the halves of it. -/
theorem meetsAt_interleaved_iff (hb : b = ['\r', '\n'] ∨ b = ['\r'] ∨ b = ['\n'])
    (h : IsSplit (next :: lines) breaks) :
    Text.MeetsAt b (Text.interleaved (next :: lines) breaks) ↔
      (b = ['\r'] → next = [] → breaks.head? ≠ some ['\n']) := by
  have hlast : b.getLast? = some '\r' ↔ b = ['\r'] := by
    obtain rfl | rfl | rfl := hb <;> simp
  have hhead : (Text.interleaved (next :: lines) breaks).head? = some '\n' ↔
      next = [] ∧ breaks.head? = some ['\n'] := by
    cases next with
    | cons c next =>
      have hc : c ≠ '\n' := (Text.unbroken_cons.mp (h.unbroken (c :: next) (by simp))).1
      cases breaks <;> simp [Text.interleaved, hc]
    | nil =>
      cases breaks with
      | nil => cases lines <;> simp [Text.interleaved]
      | cons d breaks =>
        obtain rfl | rfl | rfl := h.isBreak d (by simp) <;> simp [Text.interleaved]
  rw [Text.MeetsAt, hlast, hhead]
  tauto

/-- The rows of lines and breaks are those of a text exactly if the lines and breaks are a split. -/
theorem cut_zipWith_iff (hlength : lines.length = breaks.length + 1) :
    Cut (List.zipWith Row.mk lines (breaks ++ [[]])) ↔ IsSplit lines breaks := by
  induction breaks generalizing lines with
  | nil =>
    obtain ⟨line, rfl⟩ := List.length_eq_one_iff.mp hlength
    rw [IsSplit.single_iff]
    constructor
    · intro h
      exact h.unbroken ⟨line, []⟩ (by simp)
    · exact .last
  | cons b breaks ih =>
    obtain ⟨line, next, lines, rfl⟩ : ∃ line next more, lines = line :: next :: more := by
      match lines, hlength with
      | line :: next :: more, _ => exact ⟨line, next, more, rfl⟩
    have hrest := ih (by simpa using hlength : (next :: lines).length = breaks.length + 1)
    rw [IsSplit.cons_iff, ← hrest]
    constructor
    · intro h
      obtain ⟨hline, c, hc, hmeets, hrows⟩ := h.exists_break (by cases breaks <;> simp)
      have hb : b = c.toText := congrArg Row.ending hc
      rw [← hb] at hmeets
      have hb := exists_toText_iff.mp ⟨c, hb.symm⟩
      exact ⟨hline, hb, (meetsAt_interleaved_iff hb (hrest.mp hrows)).mp hmeets, hrows⟩
    · rintro ⟨hline, hb, hmeets, hrows⟩
      have hmeets := (meetsAt_interleaved_iff hb (hrest.mp hrows)).mpr hmeets
      obtain ⟨c, rfl⟩ := exists_toText_iff.mpr hb
      exact .cons hline hmeets hrows

end Row

namespace Lines

theorem zipWith_rowsFrom (line : Text) (rest : List (Break × Text)) :
    List.zipWith Row.mk (line :: rest.map (·.2)) (rest.map (·.1.toText) ++ [[]]) =
      rowsFrom line rest := by
  induction rest generalizing line with
  | nil => rfl
  | cons p rest ih =>
    obtain ⟨b, next⟩ := p
    exact congrArg (Row.mk line b.toText :: ·) (ih next)

theorem zipWith_rows (l : Lines) :
    List.zipWith Row.mk l.lines (l.breaks.map Break.toText ++ [[]]) = l.rows := by
  rw [rows, ← zipWith_rowsFrom, lines, breaks, List.map_map]
  rfl

end Lines

namespace Text

variable {s : Text} {lines breaks : List Text}

/-- What a text is read into is a split, and gives the text back. -/
theorem isSplit_ofText (s : Text) :
    IsSplit (Lines.ofText s).lines ((Lines.ofText s).breaks.map Break.toText) := by
  rw [← Row.cut_zipWith_iff (by rw [List.length_map, Lines.length_lines]), Lines.zipWith_rows]
  exact s.cut_rows

theorem interleaved_ofText (s : Text) :
    interleaved (Lines.ofText s).lines ((Lines.ofText s).breaks.map Break.toText) = s := by
  rw [interleaved, Lines.zipWith_rows]
  exact s.join_rows

theorem map_line_zipWith (h : lines.length = breaks.length + 1) :
    (List.zipWith Row.mk lines (breaks ++ [[]])).map Row.line = lines := by
  rw [← List.map_uncurry_zip_eq_zipWith, List.map_map]
  exact List.map_fst_zip (by simp [h])

theorem map_ending_zipWith (h : lines.length = breaks.length + 1) :
    (List.zipWith Row.mk lines (breaks ++ [[]])).map Row.ending = breaks ++ [[]] := by
  rw [← List.map_uncurry_zip_eq_zipWith, List.map_map]
  exact List.map_snd_zip (by simp [h])

/-- A split is read off the text that it makes. -/
theorem ofText_interleaved (h : IsSplit lines breaks) :
    (Lines.ofText (interleaved lines breaks)).lines = lines ∧
      (Lines.ofText (interleaved lines breaks)).breaks.map Break.toText = breaks := by
  have hrows : (interleaved lines breaks).rows = List.zipWith Row.mk lines (breaks ++ [[]]) :=
    rows_join ((Row.cut_zipWith_iff h.length_eq).mpr h)
  constructor
  · rw [← map_line_rows, hrows, map_line_zipWith h.length_eq]
  · have hendings := Lines.map_ending_rowsFrom (Lines.ofText (interleaved lines breaks)).first
      (Lines.ofText (interleaved lines breaks)).rest
    rw [← Lines.rows, ← rows, hrows, map_ending_zipWith h.length_eq] at hendings
    rw [Lines.breaks, List.map_map]
    exact (List.append_cancel_right hendings).symm

/-- A text is read into its only split. The lines of that are what is between line feeds once every
break is one, and they are counted but for an empty one at the end. -/
theorem split_iff (s : Text) :
    let lines := (Lines.ofText s).lines
    let breaks := (Lines.ofText s).breaks.map Break.toText
    (∀ more between, IsSplit more between ∧ interleaved more between = s ↔
        more = lines ∧ between = breaks) ∧
      lines = splitOn '\n' s.unified ∧
      s.lineCount = (if lines.getLast? = some [] then lines.dropLast else lines).length := by
  refine ⟨fun more between => ⟨?_, ?_⟩, lines_eq_splitOn s, ?_⟩
  · rintro ⟨hsplit, rfl⟩
    obtain ⟨hlines, hbreaks⟩ := ofText_interleaved hsplit
    exact ⟨hlines.symm, hbreaks.symm⟩
  · rintro ⟨rfl, rfl⟩
    exact ⟨isSplit_ofText s, interleaved_ofText s⟩
  · rw [lineCount, Lines.count, apply_ite List.length, List.length_dropLast, Lines.length_lines,
      Lines.breaks, List.length_map, Nat.add_sub_cancel]

/-- A return behind a return ends an empty line. A feed behind a return does so only with something
in between: two breaks around nothing at all make one. -/
example : (Lines.ofText "a\r\r\nb\n".toList).breaks = [.cr, .crlf, .lf] ∧
    (Lines.ofText (interleaved [[], [], []] [['\r'], ['\n']])).breaks = [.crlf] := by
  decide

end Text

end DocTree
