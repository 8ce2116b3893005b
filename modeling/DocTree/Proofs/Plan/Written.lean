import DocTree.Marker
import DocTree.Proofs.Markdown.Between
import DocTree.Proofs.Render.OneLine

/-!
# Written blocks as they are read

A block that is written is read as its two marker lines with lists, paragraphs and thematic breaks
between them, and what follows it is read on its own.
-/
namespace DocTree

/-- Both marker lines are comments that take a whole line. -/
structure Marker.Readable (m : Marker) : Prop where
  beginLine : Markdown.IsComment m.beginLine
  endLine : Markdown.IsComment m.endLine

theorem Marker.readable_toc : toc.Readable :=
  ⟨⟨rfl, by decide, by decide, by decide, by decide⟩,
    ⟨rfl, by decide, by decide, by decide, by decide⟩⟩

theorem Marker.readable_nav : nav.Readable :=
  ⟨⟨rfl, by decide, by decide, by decide, by decide⟩,
    ⟨rfl, by decide, by decide, by decide, by decide⟩⟩

theorem Text.ofLines_eq {lines : List Text} (h : lines ≠ []) :
    Text.ofLines lines = Render.ofLines lines ++ ['\n'] := by
  induction lines with
  | nil => exact absurd rfl h
  | cons line lines ih =>
    cases lines with
    | nil => simp [Render.ofLines]
    | cons next lines =>
      rw [Text.ofLines_cons, ih (by simp), Render.ofLines, Render.ofLines,
        List.intercalate_cons_cons]
      simp

/-- The lines of a block. A single empty line would leave no trace in it. -/
theorem Marker.wrap_ofLines (m : Marker) {lines : List Text} (h : lines.head? ≠ some []) :
    m.wrap (Render.ofLines lines) ++ ['\n'] = Markdown.Framed.text m.beginLine m.endLine lines := by
  rw [Markdown.Framed.text, Text.ofLines_cons, Marker.wrap]
  cases lines with
  | nil => simp [Render.ofLines]
  | cons line lines =>
    have hcontent : (Render.ofLines (line :: lines)).isEmpty = false := by
      have hline : line ≠ [] := fun hnil => h (by rw [hnil]; rfl)
      have hhead := Markdown.head?_intercalate hline lines
      cases hempty : Render.ofLines (line :: lines) with
      | nil =>
        rw [Render.ofLines] at hempty
        rw [hempty] at hhead
        exact absurd (List.head?_eq_none_iff.mp hhead.symm) hline
      | cons c rest => rfl
    have hlines := Text.ofLines_eq (List.cons_ne_nil line lines)
    rw [hcontent, if_neg (by simp), ← hlines]
    simp [Text.ofLines]

namespace Markdown

variable {definitions : Prop}

theorem head?_withoutNull {s : Text} {c : Char} (h : s.head? = some c) (hc : c ≠ Char.ofNat 0) :
    (Line.withoutNull s).head? = some c := by
  cases s with
  | nil => cases h
  | cons d rest =>
    cases h
    simp [Line.withoutNull, hc]

/-- Rows that begin with a bar are one paragraph. -/
theorem inert_rows {lines : List Text} (h : ∀ line ∈ lines, line.head? = some '|') (n : Nat) :
    Inert definitions (Line.numbered n (lines.map Line.withoutNull)) := by
  induction lines generalizing n with
  | nil => exact inert_nil _
  | cons line lines ih =>
    have hhead := head?_withoutNull (h line (by simp)) (by decide)
    have hmore := ih (fun x hx => h x (by simp [hx])) (n + 1)
    rw [List.map_cons, Line.numbered, Line.ofBlanks_flush (by simp [hhead, Text.isGap])]
    refine hmore.text hhead (by decide) (underlined?_text fun x hx => ?_) n
    obtain ⟨index, raw, hraw, rfl⟩ := Line.exists_of_mem_numbered hx
    obtain ⟨written, hwritten, rfl⟩ := List.mem_map.mp hraw
    have hbar := head?_withoutNull (h written (by simp [hwritten])) (by decide)
    rw [Line.ofBlanks_flush (by simp [hbar, Text.isGap])]
    simp [Line.flush, Line.content, hbar, startsText]

theorem blankWidth_spaces {c : Char} (hc : Text.isGap c = false) (k offset : Nat) (rest : Text) :
    blankWidth offset (List.replicate k ' ' ++ c :: rest) = k := by
  induction k generalizing offset with
  | zero =>
    have hspace : c ≠ ' ' := by
      rintro rfl
      cases hc
    have htab : c ≠ '\t' := by
      rintro rfl
      cases hc
    simp [blankWidth, hspace, htab]
  | succ k ih => rw [List.replicate_succ, List.cons_append, blankWidth, ih]

/-- A line behind some spaces. -/
theorem ofBlanks_spaces {c : Char} (hc : Text.isGap c = false) (k index : Nat) (rest : Text) :
    Line.ofBlanks index 0 0 (List.replicate k ' ' ++ c :: rest) =
      ⟨index, 0, k, k, List.replicate k ' ' ++ c :: rest⟩ := by
  have hlead : ((List.replicate k ' ' ++ c :: rest).takeWhile Text.isGap).length = k := by
    rw [List.takeWhile_append_of_pos (by simp [Text.isGap])]
    simp [hc]
  rw [Line.ofBlanks, blankWidth_spaces hc, hlead]

/-- A row of a table of contents has the shape of a row of links. -/
theorem linkRow_tocLine {x : Section} (hx : x.Unbroken) (hlevel : x.level ≤ 6) (index : Nat) :
    LinkRow (Line.ofBlanks index 0 0 (Line.withoutNull (Render.tocLine x))) := by
  have hplain : Line.withoutNull (Render.tocLine x) =
      List.replicate (2 * (x.level - 2).toNat) ' ' ++
        '-' :: ' ' :: '[' :: Line.withoutNull (x.title ++ "](".toList ++ x.anchor ++ [')']) := by
    simp [Render.tocLine, Render.link, Line.withoutNull]
  have hunbroken := Line.withoutNull_unbroken (Render.tocLine_unbroken hx)
  rw [hplain] at hunbroken ⊢
  rw [ofBlanks_spaces (by decide)]
  refine ⟨⟨Int.natCast_nonneg _, hunbroken.1⟩, ?_, _, List.drop_left' (List.length_replicate ..)⟩
  simp only
  omega

/-- A label ends in a line as it is read only where one ends in the line as it is written. -/
theorem labelEnd_infix_withoutNull {s : Text} (h : labelEnd <:+: Line.withoutNull s) :
    labelEnd <:+: s := by
  obtain ⟨before, after, h⟩ := h
  obtain ⟨front, back, rfl, hfront, -⟩ := List.map_eq_append_iff.mp h.symm
  obtain ⟨front, middle, rfl, -, hmiddle⟩ := List.map_eq_append_iff.mp hfront
  have hkeep : ∀ {c d : Char}, d ≠ Char.ofNat 0xFFFD →
      (if c = Char.ofNat 0 then Char.ofNat 0xFFFD else c) = d → c = d := by
    intro c d hd h
    split at h
    · exact absurd h.symm hd
    · exact h
  obtain ⟨a, rest, rfl, ha, hrest⟩ := List.map_eq_cons_iff.mp hmiddle
  obtain ⟨b, rest, rfl, hb, hrest⟩ := List.map_eq_cons_iff.mp hrest
  rw [hkeep (by decide) ha, hkeep (by decide) hb, List.map_eq_nil_iff.mp hrest]
  exact ⟨front, back, rfl⟩

/-- A table of contents is a title, a list of links and thematic breaks around them. -/
theorem inert_tocLines {sections : List Section}
    (hsections : ∀ x ∈ sections, x.Unbroken ∧ x.level ≤ 6)
    (hlabels : definitions ∨ ∀ x ∈ sections, ¬ labelEnd <:+: Render.tocLine x) (n : Nat) :
    Inert definitions (Line.numbered n
      ((Render.tocLines (sections.map Render.tocLine)).map Line.withoutNull)) := by
  have hrow : ∀ k, ∀ l ∈ Line.numbered k ((sections.map Render.tocLine).map Line.withoutNull),
      ∃ x ∈ sections, ∃ index,
        l = Line.ofBlanks index 0 0 (Line.withoutNull (Render.tocLine x)) := by
    intro k l hl
    obtain ⟨index, raw, hraw, rfl⟩ := Line.exists_of_mem_numbered hl
    obtain ⟨written, hwritten, rfl⟩ := List.mem_map.mp hraw
    obtain ⟨x, hx, rfl⟩ := List.mem_map.mp hwritten
    exact ⟨x, hx, index, rfl⟩
  have hlist : ∀ k, Inert definitions (Line.numbered k
      ((sections.map Render.tocLine ++ [tocRule]).map Line.withoutNull)) := by
    intro k
    rw [List.map_append, Line.numbered_append]
    refine ((inert_nil definitions).rule _).links ?_ (hlabels.imp_right fun hnone => ?_)
    · intro l hl
      obtain ⟨x, hx, index, rfl⟩ := hrow k l hl
      exact linkRow_tocLine (hsections x hx).1 (hsections x hx).2 index
    · intro l hl
      obtain ⟨x, hx, index, rfl⟩ := hrow k l hl
      exact fun h => hnone x hx (labelEnd_infix_withoutNull h)
  have htitle : ("Table of Contents".toList).head? = some 'T' := rfl
  exact (((hlist (n + 3)).empty (e := Line.flush (n + 2) []) rfl).text htitle (by decide) rfl
    (n + 1)).rule n

end Markdown

variable {s : Settings}

/-- The block of a navigation. -/
theorem Render.nav_framed (hs : s.Unbroken) {n : Nav} (hn : n.Unbroken) {filename nav : Text}
    (h : Render.nav s filename n = .ok nav) : ∃ content,
    Markdown.Framed False Marker.nav.beginLine Marker.nav.endLine content ∧
      Marker.nav.wrap nav ++ ['\n'] =
        Markdown.Framed.text Marker.nav.beginLine Marker.nav.endLine content := by
  obtain ⟨lines, rfl, hlines⟩ := Render.nav_eq_ofLines hs hn h
  refine ⟨lines, ⟨Marker.readable_nav.beginLine, Marker.readable_nav.endLine,
    fun line hline => (hlines line hline).1,
    Markdown.inert_rows (fun line hline => (hlines line hline).2) 1⟩, ?_⟩
  refine Marker.nav.wrap_ofLines fun hhead => ?_
  have := (hlines [] (List.mem_of_mem_head? hhead)).2
  cases this

/-- The block of a table of contents. -/
theorem Render.sectionToc_framed (definitions : Prop) {sections : List Section} {depth : Int}
    (hsections : ∀ x ∈ Section.flattenAll depth sections, x.Unbroken ∧ x.level ≤ 6)
    (hlabels : definitions ∨
      ∀ x ∈ Section.flattenAll depth sections, ¬ Markdown.labelEnd <:+: Render.tocLine x) :
    ∃ content, Markdown.Framed definitions Marker.toc.beginLine Marker.toc.endLine content ∧
      Marker.toc.wrap (Render.sectionToc sections depth) ++ ['\n'] =
        Markdown.Framed.text Marker.toc.beginLine Marker.toc.endLine content := by
  rw [Render.sectionToc_eq_ofLines]
  split
  · exact ⟨[], ⟨Marker.readable_toc.beginLine, Marker.readable_toc.endLine, by simp,
      Markdown.inert_nil _⟩, Marker.toc.wrap_ofLines (by simp)⟩
  · refine ⟨_, ⟨Marker.readable_toc.beginLine, Marker.readable_toc.endLine,
      Render.tocLines_unbroken ?_, Markdown.inert_tocLines hsections hlabels 1⟩,
      Marker.toc.wrap_ofLines (by simp [Render.tocLines, tocRule])⟩
    intro row hrow
    obtain ⟨x, hx, rfl⟩ := List.mem_map.mp hrow
    exact Render.tocLine_unbroken (hsections x hx).1

end DocTree
