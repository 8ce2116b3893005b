import DocTree.Proofs.Markdown.Margin
import DocTree.Proofs.Markdown.Swallow

/-!
# Texts read piece by piece

A text with another one behind it that begins with a line that cuts is read as the one and then the
other, unless something at the end of the first is still open: code between fences, raw HTML or a
container nested too deep. One line behind the text tells whether there is such a thing.
-/
namespace DocTree.Markdown

theorem Line.Cuts.renumber {c : Line} (h : c.Cuts) (g : Nat → Nat) : (c.renumber g).Cuts where
  margin := h.margin
  notEmpty := h.notEmpty
  interrupts := h.interrupts
  noMarker := h.noMarker
  noQuote := by rw [Line.quoted?_renumber, h.noQuote, Option.map_none]

theorem Tail.renumber {f : Frame} {gap tail : List Line} (h : Tail f gap tail) (g : Nat → Nat) :
    Tail f (gap.map (Line.renumber g)) (tail.map (Line.renumber g)) := by
  obtain ⟨hgap, c, rest, rfl, hc, hunder⟩ := h
  refine ⟨?_, c.renumber g, rest.map (Line.renumber g), by simp, hc.renumber g, hunder⟩
  intro e he
  obtain ⟨d, hd, rfl⟩ := List.mem_map.mp he
  exact hgap d hd

/-- The blocks of lines that stand in no container. The first argument counts the lines that a
block before them still owns. -/
def readOuter (owned : Nat) (lines : List Line) : List (Block Text) :=
  (readBlocks (reader (maxDepth - 1)) (reader (maxDepth - 2)) {} owned lines).1

theorem blocks_eq (s : Text) : blocks s = readOuter 0 (Line.ofText s) := rfl

section

variable {lines rest tail gap : List Line} {l c : Line}

theorem readOuter_drop (owned : Nat) (lines : List Line) :
    readOuter owned lines = readOuter 0 (lines.drop owned) :=
  readBlocks_drop _ _ _ owned lines

theorem readOuter_empty (h : l.isEmpty) (rest : List Line) :
    readOuter 0 (l :: rest) = readOuter 0 rest := by
  rw [readOuter, readBlocks_empty h]
  rfl

theorem readOuter_block (h : l.isEmpty = false) (hl : 0 ≤ l.indent) (rest : List Line) :
    ∃ quote item, readOuter 0 (l :: rest) = (readBlock quote item {} l rest).1 ++
      readOuter (readBlock quote item {} l rest).2 rest := by
  refine ⟨reader (maxDepth - 1), reader (maxDepth - 2), ?_⟩
  rw [readOuter, readBlocks_block h (by simpa using hl)]
  rfl

theorem readOuter_text (h : IsText {} l) (hl : l.isEmpty = false) (hindent : 0 ≤ l.indent)
    (rest : List Line) :
    readOuter 0 (l :: rest) =
      (readText {} l rest).1 ++ readOuter (readText {} l rest).2 rest := by
  obtain ⟨quote, item, hread⟩ := readOuter_block hl hindent rest
  rw [hread, readBlock_text h]

theorem readOuter_renumber (g : Nat → Nat) (owned : Nat) (lines : List Line) :
    readOuter owned (lines.map (Line.renumber g)) =
      (readOuter owned lines).map (Block.renumber g) := by
  rw [readOuter, readBlocks_renumber (reader_handsOn _) (reader_handsOn _)]
  rfl

/-- Blocks begin on the lines they are read from. -/
theorem readOuter_index {b : Block Text} (hr : Rising (indices lines))
    (hb : b ∈ readOuter 0 lines) : b.index ∈ indices lines := by
  have hplaced := readBlocks_placed (reader_orderly (maxDepth - 1)) (reader_orderly (maxDepth - 2))
    {} 0 hr
  exact List.mem_of_mem_take (hplaced.mem b hb)

/-- What follows some lines, from a line on that cuts, is read as if they were not there. -/
def Closed (lines : List Line) : Prop :=
  ∀ tail, Tail {} [] tail → readOuter 0 (lines ++ tail) = readOuter 0 lines ++ readOuter 0 tail

/-- Whatever follows some lines, a line that cuts after them is not read, nor are some after it. -/
def Passes (lines : List Line) : Prop :=
  ∀ tail, Tail {} [] tail → ∃ past, 0 < past ∧ (readOuter 0 (lines ++ tail)).map Block.mute =
    (readOuter 0 lines ++ readOuter 0 (tail.drop past)).map Block.mute

theorem closed_or_passes (hclean : ∀ x ∈ lines, x.Clean) : Closed lines ∨ Passes lines := by
  refine (readBlocks_cut (f := {}) [] (reader_cut (maxDepth - 1)).bounded
    (reader_cut (maxDepth - 2)) hclean 0).imp (fun h tail ht => ?_) (fun h tail ht => ?_)
  · exact (h tail ht 0 (SameUse.refl _ (Nat.zero_le _))).exact rfl
  · obtain ⟨-, past, hpast, -, hblocks⟩ := h tail ht 0 (SameUse.refl _ (Nat.zero_le _))
    exact ⟨past, hpast, hblocks⟩

/-- Some lines at the front of what follows may be passed over, but the rest is read. -/
theorem readOuter_append_mute (hclean : ∀ x ∈ lines, x.Clean) (ht : Tail {} gap tail) :
    ∃ past, (readOuter 0 (lines ++ tail)).map Block.mute =
      (readOuter 0 lines ++ readOuter 0 (tail.drop past)).map Block.mute := by
  rcases readBlocks_cut (f := {}) gap (reader_cut (maxDepth - 1)).bounded
    (reader_cut (maxDepth - 2)) hclean 0 with h | h
  · exact ⟨0, (h tail ht 0 (SameUse.refl _ (Nat.zero_le _))).blocks⟩
  · obtain ⟨-, past, -, -, hblocks⟩ := h tail ht 0 (SameUse.refl _ (Nat.zero_le _))
    exact ⟨past, hblocks⟩

/-- Where a line that cuts is passed over, no block begins on it. -/
theorem Passes.index_ne (h : Passes lines) (ht : Tail {} [] (c :: rest))
    (hr : Rising (indices (lines ++ c :: rest))) {b : Block Text}
    (hb : b ∈ readOuter 0 (lines ++ c :: rest)) : b.index ≠ c.index := by
  obtain ⟨past, hpast, hblocks⟩ := h _ ht
  obtain ⟨past, rfl⟩ : ∃ n, past = n + 1 := ⟨past - 1, by omega⟩
  rw [indices, List.map_append, Rising, List.pairwise_append] at hr
  obtain ⟨hlines, hmore, hacross⟩ := hr
  have hindex : ∀ b : Block Text, b.mute.index = b.index := by
    intro b
    unfold Block.mute
    split <;> rfl
  have hmem : b.mute ∈ (readOuter 0 (lines ++ c :: rest)).map Block.mute := List.mem_map_of_mem hb
  rw [hblocks] at hmem
  obtain ⟨b', hb', hmute⟩ := List.mem_map.mp hmem
  rw [← hindex b, ← hmute, hindex b']
  rcases List.mem_append.mp hb' with hb' | hb'
  · have := hacross _ (readOuter_index hlines hb') c.index (by simp)
    omega
  · rw [List.drop_succ_cons] at hb'
    obtain ⟨hfirst, hrest⟩ := List.pairwise_cons.mp hmore
    have hdrop : Rising (indices (rest.drop past)) := by
      rw [indices, List.map_drop]
      exact hrest.sublist (List.drop_sublist _ _)
    have hin := readOuter_index hdrop hb'
    rw [indices, List.map_drop] at hin
    have := hfirst _ (List.mem_of_mem_drop hin)
    omega

/-- Nothing is open before a line that cuts if a block is read there. -/
theorem closed_of_mem (hclean : ∀ x ∈ lines, x.Clean) (ht : Tail {} [] (c :: rest))
    (hr : Rising (indices (lines ++ c :: rest))) {b : Block Text}
    (hb : b ∈ readOuter 0 (lines ++ c :: rest)) (hindex : b.index = c.index) : Closed lines :=
  (closed_or_passes hclean).resolve_right fun h => h.index_ne ht hr hb hindex

end

theorem rising_ofText (s : Text) : Rising (indices (Line.ofText s)) := by
  rw [Line.ofText, indices_numbered]
  exact List.pairwise_lt_range'

theorem index_lt_ofText {s : Text} {i : Nat} (h : i ∈ indices (Line.ofText s)) :
    i < s.lineCount := by
  have hle := length_ofText_le s
  rw [Line.ofText_eq] at h hle
  rw [indices_numbered, List.mem_range'_1] at h
  rw [Line.length_numbered] at hle
  omega

def sharp : Text := ['#']

theorem sharp_tail : Tail {} [] (Line.ofText sharp) :=
  BeginsWithHeading.tail (by decide)

theorem blocks_sharp : blocks sharp = [⟨0, .heading 1 []⟩] := by decide +kernel

/-- Something at the end of a text is still open: a heading behind it is taken for a part of what
stands above. -/
def isOpen (s : Text) : Bool :=
  (blocks (s ++ sharp)).all (·.index < s.lineCount)

section

variable {s t : Text}

theorem blocks_index_lt {b : Block Text} (hb : b ∈ blocks s) : b.index < s.lineCount :=
  List.mem_range.mp ((blocks_placed s).mem b hb)

theorem ofText_append_sharp (hs : s.EndsLine) : Line.ofText (s ++ sharp) =
    Line.ofText s ++ (Line.ofText sharp).map (Line.renumber (· + s.lineCount)) :=
  Line.ofText_append hs (by simp [Text.MeetsAt, sharp])

theorem isOpen_eq_false_iff (hs : s.EndsLine) : isOpen s = false ↔ Closed (Line.ofText s) := by
  have hclean : ∀ x ∈ Line.ofText s, x.Clean := fun _ => Line.clean_of_mem_ofText
  have htail := sharp_tail.renumber (· + s.lineCount)
  have hrising := rising_ofText (s ++ sharp)
  rw [isOpen, blocks_eq, ofText_append_sharp hs] at *
  constructor
  · intro hopen
    refine (closed_or_passes hclean).resolve_right fun hpasses => ?_
    rw [← Bool.not_eq_true, List.all_eq_true] at hopen
    refine hopen fun b hb => decide_eq_true ?_
    have hne := hpasses.index_ne htail hrising hb
    have hmem := readOuter_index hrising hb
    rw [indices, List.map_append] at hmem
    rcases List.mem_append.mp hmem with hmem | hmem
    · exact index_lt_ofText hmem
    · exact absurd (List.mem_singleton.mp hmem) hne
  · intro hclosed
    rw [hclosed _ htail, readOuter_renumber, ← blocks_eq, ← blocks_eq, blocks_sharp]
    simp

/-- A text is read as two pieces if the second begins with a line that cuts and the first leaves
nothing open. -/
theorem blocks_append (hs : s.EndsLine) (hmeets : Text.MeetsAt s t) (hopen : isOpen s = false)
    (ht : Tail {} [] (Line.ofText t)) :
    blocks (s ++ t) = blocks s ++ (blocks t).map (Block.renumber (· + s.lineCount)) := by
  rw [blocks_eq, Line.ofText_append hs hmeets,
    (isOpen_eq_false_iff hs).mp hopen _ (ht.renumber (· + s.lineCount)), readOuter_renumber]
  rfl

/-- Nothing is open before a line that cuts if a block is read there. -/
theorem isOpen_eq_false_of_mem (hs : s.EndsLine) (hmeets : Text.MeetsAt s t)
    (ht : Tail {} [] (Line.ofText t)) {b : Block Text} (hb : b ∈ blocks (s ++ t))
    (hindex : b.index = s.lineCount) : isOpen s = false := by
  have hrising := rising_ofText (s ++ t)
  rw [blocks_eq] at hb
  rw [Line.ofText_append hs hmeets] at hb hrising
  obtain ⟨-, c, rest, hlines, hcut⟩ := ht
  have hzero : c.index = 0 := by
    have hfirst := congrArg indices hlines
    rw [Line.ofText_eq, indices_numbered] at hfirst
    cases hkept : Line.keptLines t with
    | nil => simp [hkept] at hfirst
    | cons line lines =>
      simp only [hkept, List.length_cons, List.range'_succ, indices_cons, List.nil_append] at hfirst
      exact (List.cons.inj hfirst).1.symm
  have htail : Tail {} [] (Line.ofText t) := ⟨by simp, c, rest, hlines, hcut⟩
  have htail := htail.renumber (· + s.lineCount)
  rw [hlines] at hb hrising htail
  exact (isOpen_eq_false_iff hs).mpr (closed_of_mem (fun _ => Line.clean_of_mem_ofText) htail
    hrising hb (by simp [hindex, hzero]))

/-- Where a text begins with a line that cuts, some lines at its front may be passed over, as a
part of the text above it, and the rest is read. Breaks above it make no difference. -/
theorem blocks_ended_append_mute (hmeets : Text.MeetsAt s.ended t)
    (ht : Tail {} [] (Line.ofText t)) :
    ∃ past, (blocks (s.ended ++ t)).map Block.mute = (blocks s ++
      (readOuter 0 ((Line.ofText t).drop past)).map (Block.renumber (· + s.ended.lineCount))).map
        Block.mute := by
  obtain ⟨gap, hgap, hended⟩ := Line.ofText_ended s
  have htail := ht.renumber (· + s.ended.lineCount)
  have hlong : Tail {} gap (gap ++ (Line.ofText t).map (Line.renumber (· + s.ended.lineCount))) := by
    obtain ⟨-, c, rest, hlines, hcut⟩ := htail
    exact ⟨hgap, c, rest, by rw [hlines]; rfl, hcut⟩
  have hclean : ∀ x ∈ Line.ofText s, x.Clean := fun _ => Line.clean_of_mem_ofText
  obtain ⟨past, hblocks⟩ := readOuter_append_mute hclean hlong
  refine ⟨past - gap.length, ?_⟩
  rw [blocks_eq, Line.ofText_append s.endsLine_ended hmeets, hended, List.append_assoc, hblocks,
    ← blocks_eq, List.drop_append, ← readOuter_renumber, List.map_drop]
  have hempty : ∀ lines : List Line, (∀ e ∈ lines, e.isEmpty) → ∀ more,
      readOuter 0 (lines ++ more) = readOuter 0 more := by
    intro lines hlines more
    induction lines with
    | nil => rfl
    | cons e lines ih =>
      rw [List.cons_append, readOuter_empty (hlines e (by simp)),
        ih fun d hd => hlines d (by simp [hd])]
  rw [hempty _ fun e he => hgap e (List.mem_of_mem_drop he)]

end

end DocTree.Markdown
