import DocTree.Proofs.Markdown.LinkList
import DocTree.Proofs.Markdown.Pieces
import Mathlib.Data.List.DropRight

/-!
# Between comment lines

A comment that takes a whole line is one HTML block, and what follows it is read on its own. So are
lines between two such comments if a line that cuts ends whatever they hold, as it does with a list
of links under a title and with the rows of a table.
-/
namespace DocTree.Markdown

namespace IsComment

variable {s : Text}

theorem isText (h : IsComment s) (index : Nat) : IsText {} (Line.flush index s) := by
  have hhead : (Line.flush index s).content.head? = some '<' := h.head
  exact ⟨Line.flush_isCode {} index s, Fence.of?_eq_none {} (by simp [hhead]),
    Line.quoted?_eq_none (by simp [hhead]), isRule_eq_false {} (by simp [hhead]),
    listStart?_eq_none false {} h.noMarker⟩

theorem htmlText (h : IsComment s) (index : Nat) :
    Markdown.htmlText {} [Line.flush index s] = s := by
  rw [Markdown.htmlText, List.map_singleton, Line.flush_unindented, List.intercalate_singleton]
  refine List.rdropWhile_eq_self_iff.mpr fun hs => ?_
  simp only [beq_iff_eq]
  rintro hlast
  exact h.unbroken.1 (hlast ▸ List.getLast_mem hs)

/-- What stands behind a comment line is read on its own. -/
theorem readOuter (h : IsComment s) (index : Nat) (rest : List Line) :
    Markdown.readOuter 0 (Line.flush index s :: rest) =
      ⟨index, .html s⟩ :: Markdown.readOuter 0 rest := by
  have hends : Tag.HtmlKind.comment.endsWith (Line.flush index s).content := h.ends
  rw [readOuter_text (h.isText index) (h.cuts index).notEmpty (Int.le_refl 0)]
  simp only [readText, definition_eq_none h.head (by decide), h.html?, hends, if_true,
    List.take_zero, h.htmlText]
  rfl

end IsComment

/-- Wherever reading begins in some lines, it finds no heading, no raw HTML and no quote in them,
and a line that cuts ends what it finds. -/
def Inert (definitions : Prop) (lines : List Line) : Prop :=
  ∀ tail, Tail {} [] tail → ∀ owned ≤ lines.length, ∃ quiet,
    (∀ b ∈ quiet, b.IsQuiet definitions) ∧
      readOuter owned (lines ++ tail) = quiet ++ readOuter 0 tail

section

variable {definitions : Prop} {lines : List Line}

theorem inert_nil (definitions : Prop) : Inert definitions [] := by
  intro tail _ owned howned
  obtain rfl : owned = 0 := by simpa using howned
  exact ⟨[], by simp, rfl⟩

/-- Lines stay inert behind one on which a block of no account begins. -/
theorem Inert.cons {l : Line} (h : Inert definitions lines)
    (hl : ∀ tail, Tail {} [] tail → ∃ quiet owned, (∀ b ∈ quiet, b.IsQuiet definitions) ∧
      owned ≤ lines.length ∧
        readOuter 0 (l :: (lines ++ tail)) = quiet ++ readOuter owned (lines ++ tail)) :
    Inert definitions (l :: lines) := by
  intro tail ht owned howned
  cases owned with
  | succ owned => exact h tail ht owned (by simpa using howned)
  | zero =>
    obtain ⟨first, owned, hfirst, hle, hread⟩ := hl tail ht
    obtain ⟨quiet, hquiet, hmore⟩ := h tail ht owned hle
    refine ⟨first ++ quiet, ?_, ?_⟩
    · intro b hb
      exact (List.mem_append.mp hb).elim (hfirst b) (hquiet b)
    · rw [List.cons_append, hread, hmore, List.append_assoc]

theorem Inert.empty {e : Line} (h : Inert definitions lines) (he : e.isEmpty) :
    Inert definitions (e :: lines) :=
  h.cons fun _ _ => ⟨[], 0, by simp, Nat.zero_le _, readOuter_empty he _⟩

/-- A thematic break is read on its own. -/
theorem Inert.rule (h : Inert definitions lines) (index : Nat) :
    Inert definitions (Line.flush index hyphens :: lines) := by
  refine h.cons fun tail _ => ⟨[⟨index, .rule⟩], 0, by simp [Block.IsQuiet], Nat.zero_le _, ?_⟩
  obtain ⟨quote, item, hread⟩ := readOuter_block (cuts_hyphens index).notEmpty (Int.le_refl 0)
    (lines ++ tail)
  have hfence : Fence.of? {} (Line.flush index hyphens) = none :=
    Fence.of?_eq_none {} (by simp [Line.flush, Line.content, hyphens])
  have hblock : readBlock quote item {} (Line.flush index hyphens) (lines ++ tail) =
      ([⟨index, .rule⟩], 0) := by
    simp only [readBlock, Line.flush_isCode, hfence, (cuts_hyphens index).noQuote, isRule_hyphens]
    rfl
  rw [hread, hblock]

/-- A list of links ends at a thematic break. -/
theorem Inert.links {rows : List Line} {index : Nat}
    (h : Inert definitions (Line.flush index hyphens :: lines))
    (hrows : ∀ x ∈ rows, LinkRow x) (hlabels : definitions ∨ ∀ x ∈ rows, x.NoLabelEnd) :
    Inert definitions (rows ++ Line.flush index hyphens :: lines) := by
  intro tail ht owned howned
  rw [List.append_assoc]
  by_cases hle : owned ≤ rows.length
  · have hcut : Tail ⟨1, none⟩ [] (Line.flush index hyphens :: lines ++ tail) :=
      ⟨by simp, _, lines ++ tail, rfl, cuts_hyphens index, by simp⟩
    obtain ⟨links, hlinks, hread, -⟩ := readBlocks_links (reader (maxDepth - 1)) (f := {})
      (reader_links definitions (maxDepth - 2)) hrows hcut hlabels (Nat.le_refl 18) hle
    obtain ⟨quiet, hquiet, hmore⟩ := h tail ht 0 (Nat.zero_le _)
    refine ⟨links ++ quiet, ?_, ?_⟩
    · intro b hb
      exact (List.mem_append.mp hb).elim (hlinks b) (hquiet b)
    · rw [List.append_assoc, ← hmore]
      exact hread
  · obtain ⟨quiet, hquiet, hmore⟩ := h tail ht (owned - rows.length) (by simp at howned ⊢; omega)
    refine ⟨quiet, hquiet, ?_⟩
    rw [← hmore, readOuter_drop owned, readOuter_drop (owned - rows.length), List.drop_append,
      List.drop_eq_nil_of_le (by omega), List.nil_append]

def startsText (c : Char) : Bool :=
  !(c.isDigit || ['[', '<', '#', '>', '~', '`', '*', '-', '+', '_', '=', ' ', '\t'].contains c)

/-- The line that such a character begins is the first of a paragraph if nothing underlines it. -/
theorem readOuter_paragraph {raw : Text} {c : Char} (hhead : raw.head? = some c)
    (hc : startsText c) (index : Nat) {rest : List Line} (hunder : underlined? {} rest = none) :
    ∃ content, readOuter 0 (Line.flush index raw :: rest) =
      ⟨index, .paragraph content⟩ :: readOuter (paragraphLines .paragraph {} rest) rest := by
  have hcontent : (Line.flush index raw).content.head? = some c := hhead
  simp only [startsText, Bool.not_eq_true', Bool.or_eq_false_iff, List.contains_eq_mem,
    List.mem_cons, List.not_mem_nil, or_false, decide_eq_false_iff_not, not_or] at hc
  obtain ⟨hdigit, hlabel, hhtml, hheading, hquote, htilde, htick, hstar, hminus, hplus, hline, -⟩ :=
    hc
  have hmarker := ListMarker.of?_eq_none hhead hdigit ⟨hstar, hminus, hplus⟩
  have htext : IsText {} (Line.flush index raw) :=
    ⟨Line.flush_isCode {} index raw, Fence.of?_eq_none {} (by simp [hcontent, htilde, htick]),
      Line.quoted?_eq_none (by simp [hcontent, hquote]),
      isRule_eq_false {} (by simp [hcontent, hstar, hminus, hline]),
      listStart?_eq_none false {} hmarker⟩
  have hnoHtml := html?_eq_none {} (l := Line.flush index raw) (by simp [hcontent, hhtml])
  have hnoHeading := heading?_eq_none {} (l := Line.flush index raw) (by simp [hcontent, hheading])
  rw [readOuter_text htext (Line.flush_notEmpty hhead index) (Int.le_refl 0)]
  simp only [readText, definition_eq_none hhead hlabel, hnoHtml, hnoHeading, hunder]
  exact ⟨_, rfl⟩

theorem Inert.text (h : Inert definitions lines) {raw : Text} {c : Char}
    (hhead : raw.head? = some c) (hc : startsText c) (hunder : underlined? {} lines = none)
    (index : Nat) : Inert definitions (Line.flush index raw :: lines) := by
  refine h.cons fun tail ht => ?_
  have hnone : underlined? {} (lines ++ tail) = none := by rw [underlined?_cut ht, hunder]
  obtain ⟨content, hread⟩ := readOuter_paragraph hhead hc index hnone
  rw [paragraphLines_cut (by decide) ht] at hread
  exact ⟨[_], _, by simp [Block.IsQuiet], paragraphLines_le .paragraph {} lines, hread⟩

/-- Lines of text underline nothing. -/
theorem underlined?_text {texts : List Line} (h : ∀ x ∈ texts, ∀ c ∈ x.content.head?, startsText c) :
    underlined? {} texts = none := by
  induction texts with
  | nil => rfl
  | cons x rest ih =>
    have hx : underline? x = none := by
      refine underline?_eq_none fun c hc => ?_
      have := h x (by simp) c hc
      constructor
      · rintro rfl
        cases this
      · rintro rfl
        cases this
    rw [underlined?, hx, ih fun y hy => h y (by simp [hy])]
    simp

/-- Nothing of inert lines is open at their end. -/
theorem Inert.closed (h : Inert definitions lines) (hclean : ∀ x ∈ lines, x.Clean) {n : Nat}
    (hr : Rising (indices lines ++ [n])) : Closed lines := by
  have hheading : (Line.flush n sharp).IsHeading := ⟨rfl, rfl⟩
  have htail := hheading.tail {} []
  obtain ⟨quiet, -, hread⟩ := h _ htail 0 (Nat.zero_le _)
  have hsharp : readOuter 0 [Line.flush n sharp] = [⟨n, .heading 1 []⟩] := by
    have := readOuter_renumber (fun _ => n) 0 (Line.ofText sharp)
    rw [← blocks_eq, blocks_sharp] at this
    exact this
  refine closed_of_mem (b := ⟨n, .heading 1 []⟩) hclean htail ?_ ?_ rfl
  · rw [indices, List.map_append]
    exact hr
  · rw [hread, hsharp]
    simp

/-- What inert lines are read as. -/
theorem Inert.quiet (h : Inert definitions lines) (hclosed : Closed lines) :
    ∀ b ∈ readOuter 0 lines, b.IsQuiet definitions := by
  obtain ⟨quiet, hquiet, hread⟩ := h _ sharp_tail 0 (Nat.zero_le _)
  rw [hclosed _ sharp_tail, List.append_cancel_right_eq] at hread
  rw [hread]
  exact hquiet

end

/-- Neither a heading nor, unless they are allowed, a definition. -/
def Block.IsSilent (definitions : Prop) (b : Block Text) : Prop :=
  match b.kind with
  | .heading .. => False
  | .definition _ => definitions
  | _ => True

theorem Block.IsQuiet.isSilent {definitions : Prop} {b : Block Text} (h : b.IsQuiet definitions) :
    b.IsSilent definitions := by
  unfold IsQuiet at h
  unfold IsSilent
  split <;> simp_all

/-- Lines between two comments that are read on their own. -/
structure Framed (definitions : Prop) (first last : Text) (content : List Text) : Prop where
  first : IsComment first
  last : IsComment last
  unbroken : ∀ line ∈ content, line.Unbroken
  inert : Inert definitions (Line.numbered 1 (content.map Line.withoutNull))

namespace Framed

variable {definitions : Prop} {first last : Text} {content : List Text}

def text (first last : Text) (content : List Text) : Text :=
  Text.ofLines (first :: (content ++ [last]))

theorem endsLine_text (first last : Text) (content : List Text) :
    (text first last content).EndsLine :=
  Text.endsLine_ofLines _

theorem ofText (h : Framed definitions first last content) :
    Line.ofText (text first last content) = Line.flush 0 first ::
      (Line.numbered 1 (content.map Line.withoutNull) ++
        [Line.flush (content.length + 1) last]) := by
  have hflush : ∀ {s : Text} (index : Nat), IsComment s →
      Line.ofBlanks index 0 0 s = Line.flush index s := by
    intro s index hs
    exact Line.ofBlanks_flush (by rw [hs.head]; simp [Text.isGap]) index
  rw [text, Line.ofText_eq, Line.keptLines_ofLines, List.map_cons, List.map_append,
    List.map_singleton, h.first.plain, h.last.plain, Line.numbered, Line.numbered_append,
    Line.numbered, hflush _ h.first, hflush _ h.last, List.length_map, Nat.add_comm 1]
  · rfl
  · intro line hline
    rcases List.mem_cons.mp hline with rfl | hline
    · exact h.first.unbroken
    rcases List.mem_append.mp hline with hline | hline
    · exact h.unbroken line hline
    · rw [List.mem_singleton.mp hline]
      exact h.last.unbroken

theorem lineCount (h : Framed definitions first last content) :
    (text first last content).lineCount = content.length + 2 := by
  have hlines := congrArg List.length h.ofText
  rw [← Line.length_keptLines (endsLine_text first last content)]
  simpa [Line.ofText_eq] using hlines

theorem closed (h : Framed definitions first last content) :
    Closed (Line.numbered 1 (content.map Line.withoutNull)) := by
  refine h.inert.closed (n := content.length + 1) ?_ ?_
  · intro x hx
    refine Line.clean_of_mem_numbered ?_ hx
    intro line hline
    obtain ⟨written, hwritten, rfl⟩ := List.mem_map.mp hline
    exact Line.withoutNull_unbroken (h.unbroken written hwritten)
  · rw [indices_numbered, List.length_map, Rising, List.pairwise_append]
    refine ⟨List.pairwise_lt_range', by simp, ?_⟩
    intro i hi j hj
    rw [List.mem_range'_1] at hi
    rw [List.mem_singleton.mp hj]
    omega

/-- The comments are read as raw HTML, and what follows the second on its own. -/
theorem readOuter (h : Framed definitions first last content) (rest : List Line) :
    Markdown.readOuter 0 (Line.ofText (text first last content) ++ rest) =
      ⟨0, .html first⟩ :: (Markdown.readOuter 0 (Line.numbered 1 (content.map Line.withoutNull)) ++
        ⟨content.length + 1, .html last⟩ :: Markdown.readOuter 0 rest) := by
  rw [h.ofText, List.cons_append, h.first.readOuter, List.append_assoc, List.singleton_append,
    h.closed _ (h.last.tail {} _ rest), h.last.readOuter]

theorem blocks (h : Framed definitions first last content) : ∃ quiet,
    (∀ b ∈ quiet, b.IsQuiet definitions) ∧ Markdown.blocks (text first last content) =
      ⟨0, .html first⟩ :: (quiet ++ [⟨content.length + 1, .html last⟩]) := by
  refine ⟨_, h.inert.quiet h.closed, ?_⟩
  have := h.readOuter []
  rw [List.append_nil] at this
  exact this

theorem blocks_append (h : Framed definitions first last content) (t : Text) :
    Markdown.blocks (text first last content ++ t) =
      Markdown.blocks (text first last content) ++
        (Markdown.blocks t).map (Block.renumber (· + (content.length + 2))) := by
  have hown := h.readOuter []
  rw [List.append_nil] at hown
  have hmeets : Text.MeetsAt (text first last content) t := Text.meetsAt_ofLines _ t
  rw [blocks_eq, Line.ofText_append (endsLine_text first last content) hmeets, h.readOuter,
    h.lineCount, readOuter_renumber, blocks_eq, hown, ← blocks_eq]
  simp [Markdown.readOuter, readBlocks]

theorem head?_text (h : Framed definitions first last content) (t : Text) :
    (text first last content ++ t).head? = some '<' := by
  rw [text, Text.ofLines_cons, List.append_assoc, List.head?_append, h.first.head, Option.some_or]

theorem meetsAt (h : Framed definitions first last content) (s t : Text) :
    Text.MeetsAt s (text first last content ++ t) := by
  refine Text.meetsAt_of_head?_ne ?_ s
  rw [h.head?_text]
  decide

/-- A block cuts what stands above it. -/
theorem tail (h : Framed definitions first last content) (t : Text) :
    Tail {} [] (Line.ofText (text first last content ++ t)) := by
  have hmeets : Text.MeetsAt (text first last content) t := Text.meetsAt_ofLines _ t
  rw [Line.ofText_append (endsLine_text first last content) hmeets, h.ofText]
  exact h.first.tail {} 0 _

/-- Wherever reading begins in the lines of a block, it finds no heading. -/
theorem silent (h : Framed definitions first last content) (past : Nat) :
    ∀ b ∈ Markdown.readOuter 0 ((Line.ofText (text first last content)).drop past),
      b.IsSilent definitions := by
  cases past with
  | zero =>
    obtain ⟨quiet, hquiet, hblocks⟩ := h.blocks
    rw [List.drop_zero, ← blocks_eq, hblocks]
    intro b hb
    rcases List.mem_cons.mp hb with rfl | hb
    · trivial
    rcases List.mem_append.mp hb with hb | hb
    · exact (hquiet b hb).isSilent
    · rw [List.mem_singleton.mp hb]
      trivial
  | succ past =>
    rw [h.ofText, List.drop_succ_cons, ← readOuter_drop]
    by_cases hle : past ≤ content.length
    · obtain ⟨quiet, hquiet, hread⟩ := h.inert _ (h.last.tail {} (content.length + 1) []) past
        (by simpa using hle)
      rw [hread, h.last.readOuter]
      intro b hb
      rcases List.mem_append.mp hb with hb | hb
      · exact (hquiet b hb).isSilent
      rcases List.mem_cons.mp hb with rfl | hb
      · trivial
      · cases hb
    · rw [readOuter_drop, List.drop_eq_nil_of_le (by simp; omega)]
      intro b hb
      cases hb

end Framed

end DocTree.Markdown
