import DocTree.Proofs.Edit.Order
import DocTree.Proofs.Text.Parts

/-!
# Edits of the bare lines

Of a text whose breaks are line feeds, the breaks need not be kept: an edit is a block in place of
some of its lines, and in the end the lines are joined by line feeds. A draft does this to its
lines, and counts its breaks besides. A range that starts past the last line has no break to take
away and none to put behind its block, so from then on the draft has lines that no break leads to,
and its text is that of the bare lines without as many of them at the end.
-/
namespace DocTree

namespace Edit

def onLines (lines : List Text) (e : Edit) : List Text :=
  lines.take (e.span.start - 1) ++ e.content :: lines.drop (e.span.past - 1)

end Edit

/-- The lines of a text after its edits, from the last start upward, with no regard to breaks. -/
def Text.plainLines (s : Text) (edits : List Edit) : List Text :=
  (edits.insertionSort Edit.Leads).foldl Edit.onLines (Text.splitOn '\n' s)

/-- The edits of a text that is cut at line feeds and put together again with them. -/
def Text.plainlyEdited (s : Text) (edits : List Edit) : Text :=
  List.intercalate ['\n'] (s.plainLines edits)

namespace Draft

structure Size where
  lines : Nat
  breaks : Nat
  deriving DecidableEq, Repr

namespace Size

/-- The size of a draft after an edit. A place brings a line and a break. A range takes away what
there is of its lines, and of the breaks between them, and brings a line. -/
def apply (n : Size) (e : Edit) : Size :=
  let start := e.span.start - 1
  let stop := e.span.past - 1
  if start < stop then
    ⟨min start n.lines + 1 + (n.lines - stop), min start n.breaks + (n.breaks - (stop - 1))⟩
  else ⟨n.lines + 1, n.breaks + 1⟩

/-- How many lines at the end no break leads to. -/
def lost (n : Size) : Nat :=
  n.lines - (n.breaks + 1)

/-- Of two lines that follow each other a break is missing at most. -/
def Sound (n : Size) : Prop :=
  n.breaks + 1 ≤ n.lines

theorem Sound.apply {n : Size} (h : n.Sound) (e : Edit) : (n.apply e).Sound := by
  unfold Sound at h ⊢
  rw [Size.apply]
  split
  · dsimp only
    omega
  · dsimp only
    omega

theorem Sound.foldl_apply {n : Size} (h : n.Sound) (edits : List Edit) :
    (edits.foldl Size.apply n).Sound := by
  induction edits generalizing n with
  | nil => exact h
  | cons e edits ih => exact ih (h.apply e)

/-- An edit that starts at a line or at a break loses no line. -/
theorem lost_apply {n : Size} {e : Edit} (h : n.Sound) (hlost : n.lost = 0)
    (hin : ¬ e.span.IsPlace → e.span.start ≤ n.lines) : (n.apply e).lost = 0 := by
  have hle := e.span.start_le_past
  have hpos := e.span.start_pos
  unfold Sound at h
  unfold lost at hlost ⊢
  unfold Span.IsPlace at hin
  rw [Size.apply]
  split
  · dsimp only
    omega
  · dsimp only
    omega

/-- What an edit puts at its line is there, and what was before it. -/
theorem start_le_apply {n : Size} {e : Edit} (hin : e.span.start ≤ n.lines) :
    e.span.start ≤ (n.apply e).lines := by
  have hpos := e.span.start_pos
  rw [Size.apply]
  split
  · dsimp only
    omega
  · dsimp only
    omega

theorem lines_le_apply {n : Size} {e : Edit} (hplace : e.span.IsPlace) :
    n.lines ≤ (n.apply e).lines := by
  have : ¬ e.span.start - 1 < e.span.past - 1 := by
    unfold Span.IsPlace at hplace
    omega
  rw [Size.apply, if_neg this]
  exact Nat.le_succ n.lines

/-- Edits from the last start upward lose no line if each range among them starts at a line. -/
theorem lost_foldl_apply {n : Size} {edits : List Edit} (h : n.Sound) (hlost : n.lost = 0)
    (hsorted : edits.Pairwise Edit.Leads)
    (hin : ∀ e ∈ edits, ¬ e.span.IsPlace → e.span.start ≤ n.lines) :
    (edits.foldl Size.apply n).lost = 0 := by
  induction edits generalizing n with
  | nil => exact hlost
  | cons e edits ih =>
    obtain ⟨hleads, hsorted⟩ := List.pairwise_cons.mp hsorted
    refine ih (h.apply e) (lost_apply h hlost (hin e (by simp))) hsorted ?_
    intro f hf hrange
    by_cases hplace : e.span.IsPlace
    · exact (hin f (by simp [hf]) hrange).trans (lines_le_apply hplace)
    · have hfe : f.span.start ≤ e.span.start := hleads f hf
      exact hfe.trans (start_le_apply (hin e (by simp) hplace))

end Size

def size (d : Draft) : Size :=
  ⟨d.lines.length, d.breaks.length⟩

theorem size_apply (d : Draft) (e : Edit) : (d.apply e).size = d.size.apply e := by
  have hle := e.span.start_le_past
  rw [size, apply, Size.apply]
  dsimp only [size]
  split
  · simp only [List.length_append, List.length_take, List.length_drop, List.length_cons,
      Size.mk.injEq, and_true]
    omega
  · simp only [List.length_append, List.length_take, List.length_drop, List.length_cons,
      Size.mk.injEq]
    omega

theorem size_ofText (s : Text) :
    (ofText s).size = ⟨(ofText s).lines.length, (ofText s).lines.length - 1⟩ := by
  rw [size, ofText, Lines.length_lines]
  rfl

theorem sound_size_ofText (s : Text) : (ofText s).size.Sound := by
  rw [size, ofText, Lines.length_lines]
  exact Nat.le_refl _

def Plain (d : Draft) : Prop :=
  ∀ b ∈ d.breaks, b = .lf

theorem plain_ofText {s : Text} (h : '\r' ∉ s) : (ofText s).Plain :=
  Text.breaks_of_notMem h

theorem Plain.apply {d : Draft} (h : d.Plain) (e : Edit) : (d.apply e).Plain := by
  intro b hb
  rw [Draft.apply] at hb
  dsimp only at hb
  split at hb
  · rcases List.mem_append.mp hb with hb | hb
    · exact h b (List.mem_of_mem_take hb)
    · exact h b (List.mem_of_mem_drop hb)
  · rcases List.mem_append.mp hb with hb | hb
    · exact h b (List.mem_of_mem_take hb)
    · rcases List.mem_cons.mp hb with hb | hb
      · exact hb
      · exact h b (List.mem_of_mem_drop hb)

theorem interleave_plain {breaks : List Break} (h : ∀ b ∈ breaks, b = .lf) (first : Text)
    (rest : List Text) :
    first ++ interleave Break.toText breaks rest =
      List.intercalate ['\n'] ((first :: rest).take (breaks.length + 1)) := by
  induction breaks generalizing first rest with
  | nil => simp [interleave]
  | cons b breaks ih =>
    cases rest with
    | nil => simp [interleave]
    | cons next rest =>
      have hb : b = .lf := h b (by simp)
      have hrest := ih (fun b hb => h b (by simp [hb])) next rest
      rw [interleave, List.append_assoc, hrest, hb, Break.toText]
      simp only [List.length_cons, List.take_succ_cons, List.intercalate_cons_cons,
        List.append_assoc]

/-- A draft with line feeds only shows its lines as far as the breaks go. -/
theorem Plain.toText {d : Draft} (h : d.Plain) (hsound : d.size.Sound) :
    d.toText = List.intercalate ['\n'] (d.lines.rdrop d.size.lost) := by
  have hshown : d.lines.rdrop d.size.lost = d.lines.take (d.breaks.length + 1) := by
    rw [List.rdrop, Size.lost]
    exact congrArg (d.lines.take ·) (Nat.sub_sub_self hsound)
  rw [hshown, Draft.toText, join]
  cases hlines : d.lines with
  | nil => rfl
  | cons first rest => exact interleave_plain h first rest

theorem Plain.toText_eq_iff {d : Draft} (h : d.Plain) (hsound : d.size.Sound) :
    d.toText = List.intercalate ['\n'] d.lines ↔ d.size.lost = 0 := by
  have hpos : d.size.lost < d.lines.length := by
    unfold Size.lost
    unfold Size.Sound at hsound
    dsimp only [size] at hsound ⊢
    omega
  rw [h.toText hsound, Text.intercalate_rdrop_eq_iff (by simp) hpos]

/-- Edits of a draft, seen in its lines, its size and its breaks apart. -/
theorem foldl_apply_plain {d : Draft} (h : d.Plain) (edits : List Edit) :
    (edits.foldl apply d).Plain ∧ (edits.foldl apply d).size = edits.foldl Size.apply d.size ∧
      (edits.foldl apply d).lines = edits.foldl Edit.onLines d.lines := by
  induction edits generalizing d with
  | nil => exact ⟨h, rfl, rfl⟩
  | cons e edits ih =>
    obtain ⟨hplain, hsize, hlines⟩ := ih (h.apply e)
    rw [size_apply] at hsize
    exact ⟨hplain, hsize, hlines⟩

end Draft

namespace Text

/-- How many lines the edits of a text lose at its end. -/
def lostLines (s : Text) (edits : List Edit) : Nat :=
  let lines := (splitOn '\n' s).length
  ((Edit.fromLast edits).foldl Draft.Size.apply ⟨lines, lines - 1⟩).lost

/-- The edits of a text with line feeds only are those of its bare lines, but for some lines at the
end that are lost. None is lost if every range starts at a line of the text, wherever it ends and
whatever it overlaps; the texts are the same exactly if none is. -/
theorem edited_plain (s : Text) (edits : List Edit) (h : '\r' ∉ s) :
    s.edited edits = List.intercalate ['\n'] ((s.plainLines edits).rdrop (s.lostLines edits)) ∧
      (s.edited edits = s.plainlyEdited edits ↔ s.lostLines edits = 0) ∧
      ((∀ e ∈ edits, ¬ e.span.IsPlace → e.span.start ≤ (splitOn '\n' s).length) →
        s.edited edits = s.plainlyEdited edits) := by
  have hofLines : (Draft.ofText s).lines = splitOn '\n' s := lines_of_notMem h
  have hofSound := Draft.sound_size_ofText s
  obtain ⟨hplain, hsize, hlines⟩ :=
    Draft.foldl_apply_plain (Draft.plain_ofText h) (Edit.fromLast edits)
  have hsound := hofSound.foldl_apply (Edit.fromLast edits)
  rw [← hsize] at hsound
  have hlost : s.lostLines edits =
      ((Edit.fromLast edits).foldl Draft.apply (Draft.ofText s)).size.lost := by
    rw [lostLines, ← hofLines, ← Draft.size_ofText, ← hsize]
  have hplainLines : s.plainLines edits =
      ((Edit.fromLast edits).foldl Draft.apply (Draft.ofText s)).lines := by
    rw [plainLines, ← Edit.fromLast_eq, ← hofLines, hlines]
  have hiff : s.edited edits = s.plainlyEdited edits ↔ s.lostLines edits = 0 := by
    rw [hlost, plainlyEdited, hplainLines]
    exact hplain.toText_eq_iff hsound
  refine ⟨?_, hiff, ?_⟩
  · rw [hlost, hplainLines]
    exact hplain.toText hsound
  · intro hin
    rw [hiff, lostLines, ← hofLines, ← Draft.size_ofText]
    refine Draft.Size.lost_foldl_apply hofSound ?_ (Edit.pairwise_fromLast edits) ?_
    · rw [Draft.size_ofText, Draft.Size.lost]
      dsimp only
      omega
    · intro e he
      rw [Draft.size_ofText, hofLines]
      exact hin e ((Edit.fromLast_perm edits).mem_iff.mp he)

/-- Overlapping edits that reach past the end, a place swallowed by them, and one in front. -/
theorem edited_plain_overlapping :
    ∃ edits : List Edit, (∀ e ∈ edits, ¬ e.span.IsPlace →
        e.span.start ≤ (splitOn '\n' "a\nb\nc".toList).length) ∧
      Text.plainlyEdited "a\nb\nc".toList edits = "top\na\nX".toList ∧
      Text.edited "a\nb\nc".toList edits = "top\na\nX".toList := by
  let edits : List Edit :=
    [⟨{ start := 2, stop := some 4 }, "X".toList⟩, ⟨{ start := 3, stop := some 9 }, "Y".toList⟩,
      ⟨{ start := 9 }, "over".toList⟩, ⟨{ start := 1 }, "top".toList⟩]
  have hin : ∀ e ∈ edits, ¬ e.span.IsPlace →
      e.span.start ≤ (splitOn '\n' "a\nb\nc".toList).length := by decide
  have hplain : Text.plainlyEdited "a\nb\nc".toList edits = "top\na\nX".toList := by decide
  obtain ⟨-, -, hsame⟩ := edited_plain "a\nb\nc".toList edits (by decide)
  exact ⟨edits, hin, hplain, (hsame hin).trans hplain⟩

/-- The block of a range that starts after the last line is lost. -/
theorem edited_ne_plainlyEdited :
    ∃ (s : Text) (edits : List Edit), '\r' ∉ s ∧ s.plainlyEdited edits = "a\nX".toList ∧
      s.edited edits = "a".toList :=
  ⟨"a".toList, [⟨{ start := 2, stop := some 3 }, "X".toList⟩], by decide, by decide, by decide⟩

end Text

end DocTree
