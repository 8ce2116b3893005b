import DocTree.Proofs.Load.Documents
import DocTree.Proofs.Plan.Found

/-!
# The headings of a document with its first blocks

The blocks that the first run writes have no headings of their own. But the table of contents ends
every container above it, so the rest of the text is read from a new start, without the list or the
quote that it stood in. And a title that reads like the label of a definition is defined in the
table of contents, for the content of every heading.
-/
namespace DocTree

namespace Markdown

def outline (labels : List Text) (blocks : List (Block Text)) : List Heading :=
  blocks.filterMap fun b =>
    match b.kind with
    | .heading level source => some ⟨level, plainText (Inline.leaves (Content.read labels source))⟩
    | _ => none

variable {labels : List Text} {blocks more : List (Block Text)}

@[simp] theorem outline_append (labels : List Text) (blocks more : List (Block Text)) :
    outline labels (blocks ++ more) = outline labels blocks ++ outline labels more :=
  List.filterMap_append

@[simp] theorem Page.labels_append (blocks more : List (Block Text)) :
    Page.labels (blocks ++ more) = Page.labels blocks ++ Page.labels more :=
  List.filterMap_append

/-- Headings and definitions are told by what blocks are, not by their lines. -/
theorem outline_renumber (labels : List Text) (g : Nat → Nat) (blocks : List (Block Text)) :
    outline labels (blocks.map (Block.renumber g)) = outline labels blocks := by
  rw [outline, List.filterMap_map]
  rfl

theorem Page.labels_renumber (g : Nat → Nat) (blocks : List (Block Text)) :
    Page.labels (blocks.map (Block.renumber g)) = Page.labels blocks := by
  rw [Page.labels, List.filterMap_map]
  rfl

/-- What raw HTML says makes no difference to them. -/
theorem outline_mute (labels : List Text) (blocks : List (Block Text)) :
    outline labels (blocks.map Block.mute) = outline labels blocks := by
  rw [outline, List.filterMap_map]
  refine List.filterMap_congr fun b _ => ?_
  obtain ⟨index, kind⟩ := b
  cases kind <;> rfl

theorem Page.labels_mute (blocks : List (Block Text)) :
    Page.labels (blocks.map Block.mute) = Page.labels blocks := by
  rw [Page.labels, List.filterMap_map]
  refine List.filterMap_congr fun b _ => ?_
  obtain ⟨index, kind⟩ := b
  cases kind <;> rfl

theorem outline_silent {definitions : Prop} (h : ∀ b ∈ blocks, b.IsSilent definitions)
    (labels : List Text) : outline labels blocks = [] := by
  refine List.filterMap_eq_nil_iff.mpr fun b hb => ?_
  have hsilent := h b hb
  obtain ⟨index, kind⟩ := b
  cases kind with
  | heading level source => exact hsilent.elim
  | _ => rfl

theorem Page.labels_silent (h : ∀ b ∈ blocks, b.IsSilent False) : Page.labels blocks = [] := by
  refine List.filterMap_eq_nil_iff.mpr fun b hb => ?_
  have hsilent := h b hb
  obtain ⟨index, kind⟩ := b
  cases kind with
  | definition label => exact hsilent.elim
  | _ => rfl

/-- The headings of a text are those of its blocks, with the labels that it defines. -/
theorem headings_eq (s : Text) :
    s.headings = outline (Page.labels (Markdown.blocks s)) (Markdown.blocks s) := by
  rw [Text.headings, Page.ofText, Page.titles, List.map_filterMap, List.filterMap_map, outline]
  refine List.filterMap_congr fun b _ => ?_
  obtain ⟨index, kind⟩ := b
  cases kind <;> rfl

theorem Page.exists_block_of_title {s : Text} {t : Page.Title}
    (h : t ∈ Page.titles (Page.ofText s)) : ∃ b ∈ Markdown.blocks s, b.index = t.index := by
  obtain ⟨read, hread, ht⟩ := List.mem_filterMap.mp h
  obtain ⟨b, hb, rfl⟩ := List.mem_map.mp hread
  exact ⟨b, hb, (Page.title_of_block ht).1.symm⟩

/-- The headings of a text whose blocks are given, but for what raw HTML says. -/
theorem headings_of_mute {s : Text}
    (h : (Markdown.blocks s).map Block.mute = blocks.map Block.mute) :
    s.headings = outline (Page.labels blocks) blocks := by
  rw [headings_eq, ← outline_mute, ← Page.labels_mute, h, outline_mute, Page.labels_mute]

namespace Framed

variable {definitions : Prop} {first last : Text} {content : List Text}

theorem outline_eq (h : Framed definitions first last content) (labels : List Text) :
    outline labels (Markdown.blocks (text first last content)) = [] :=
  outline_silent (h.silent 0) labels

theorem labels_eq (h : Framed False first last content) :
    Page.labels (Markdown.blocks (text first last content)) = [] :=
  Page.labels_silent (h.silent 0)

end Framed

end Markdown

namespace Plan

open Markdown

section

variable {definitions : Prop} {navLines tocLines : List Text} {above below : Text}
  (hnav : Framed False Marker.nav.beginLine Marker.nav.endLine navLines)
include hnav

/-- Where nothing is open above the table of contents, the headings are those of the text around
it, read in two pieces. -/
theorem headings_assembled
    (htoc : Framed definitions Marker.toc.beginLine Marker.toc.endLine tocLines)
    (habove : above.EndsLine) (hopen : isOpen above = false) :
    (assembled navLines above tocLines below).headings =
      outline (Page.labels (blocks above ++
        (blocks (Framed.text Marker.toc.beginLine Marker.toc.endLine tocLines) ++ blocks below)))
        (blocks above ++ blocks below) := by
  rw [headings_eq, blocks_assembled hnav htoc habove hopen]
  simp only [outline_append, Page.labels_append, outline_renumber, Page.labels_renumber,
    hnav.outline_eq, hnav.labels_eq, htoc.outline_eq, List.nil_append]

variable (htoc : Framed False Marker.toc.beginLine Marker.toc.endLine tocLines)
include htoc

/-- In front of a heading at the left margin a table of contents leaves the headings as they are. -/
theorem headings_assembled_before (habove : above.EndsLine) (hmeets : Text.MeetsAt above below)
    (hopen : isOpen above = false) (hbelow : BeginsWithHeading below) :
    (assembled navLines above tocLines below).headings = (above ++ below).headings := by
  rw [headings_assembled hnav htoc habove hopen, headings_eq (above ++ below),
    blocks_append habove hmeets hopen hbelow.tail]
  simp only [outline_append, Page.labels_append, outline_renumber, Page.labels_renumber,
    htoc.labels_eq, List.nil_append]

/-- So it does at the end of a text, whatever is open there. -/
theorem headings_assembled_end (text : Text) :
    (assembled navLines text.ended tocLines []).headings = text.headings := by
  obtain ⟨past, hblocks⟩ := blocks_ended_append_mute (htoc.meetsAt text.ended []) (htoc.tail [])
  have hsilent := htoc.silent past
  rw [List.append_nil] at hblocks
  rw [headings_eq, assembled, List.append_nil, hnav.blocks_append]
  simp only [outline_append, Page.labels_append, outline_renumber, Page.labels_renumber,
    hnav.outline_eq, hnav.labels_eq, List.nil_append]
  rw [← headings_eq, headings_of_mute hblocks]
  simp only [outline_append, Page.labels_append, outline_renumber, Page.labels_renumber,
    outline_silent hsilent, Page.labels_silent hsilent, List.append_nil, headings_eq]

end

/-- Nothing is open above the first heading of the second level if it stands at the left margin. -/
theorem isOpen_before {d : Document} {text : Text} (hd : d.Reads text) {t : Page.Title}
    (h : d.second? = some t) (hafter : BeginsWithHeading (after d text)) :
    isOpen (before d text) = false := by
  obtain ⟨b, hb, hindex⟩ := Page.exists_block_of_title (hd.page ▸ List.mem_of_find?_eq_some h)
  refine isOpen_eq_false_of_mem (endsLine_before hd) (meetsAt_before_after hd h) hafter.tail
    (b := b) ?_ ?_
  · rwa [before_append_after h]
  · rw [hindex, lineCount_before hd h]

/-- The headings of a text that is read in two pieces, cut at the place of its table of contents,
with what the table of contents between them defines. -/
def headingsApart (d : Document) (text toc : Text) : List Heading :=
  outline (Page.labels (blocks (before d text) ++ (blocks toc ++ blocks (after d text))))
    (blocks (before d text) ++ blocks (after d text))

/-- The headings after the first run. Where nothing is open at the place of the table of contents,
they are those of the text read in two pieces. They are the headings of the text itself if no row of
the table of contents holds the end of a label, and the text has no heading of the second level, or
its first one is written with number signs at the left margin. -/
theorem headings_edited {s : Settings} {d : Document} {text : Text} {n : Nav} {f : FileEdit}
    (hd : d.Reads text) (ht : d.findMarker Marker.toc = none) (hn : d.findMarker Marker.nav = none)
    (hf : ofDocument s d n = .ok f) (hs : s.Unbroken) (hnav : n.Unbroken)
    (hsections : ∀ x ∈ Section.flattenAll s.tocDepth d.sections, x.Unbroken ∧ x.level ≤ 6) :
    (isOpen (before d text) = false → (text.edited f.edits).headings =
      headingsApart d text (Marker.toc.wrap (Render.sectionToc d.sections s.tocDepth))) ∧
    ((∀ x ∈ Section.flattenAll s.tocDepth d.sections, ¬ labelEnd <:+: Render.tocLine x) →
      d.second? = none ∨ BeginsWithHeading (after d text) →
        (text.edited f.edits).headings = text.headings) := by
  obtain ⟨nav, hrender, rfl⟩ := ofDocument_eq_ok.mp hf
  obtain ⟨navLines, hnavFramed, hnavText⟩ := Render.nav_framed hs hnav hrender
  have hheadings : ∀ tocLines, Marker.toc.wrap (Render.sectionToc d.sections s.tocDepth) ++ ['\n'] =
      Framed.text Marker.toc.beginLine Marker.toc.endLine tocLines →
      (text.edited (fileEdit d (Render.sectionToc d.sections s.tocDepth) nav).edits).headings =
        (assembled navLines (before d text) tocLines (after d text)).headings := by
    intro tocLines htocText
    rw [headings_eq, headings_eq, blocks_edited hd ht hn hnavText htocText]
  constructor
  · intro hopen
    obtain ⟨tocLines, htocFramed, htocText⟩ :=
      Render.sectionToc_framed True hsections (Or.inl trivial)
    rw [hheadings tocLines htocText,
      headings_assembled hnavFramed htocFramed (endsLine_before hd) hopen, headingsApart,
      ← htocText, blocks_eq (_ ++ ['\n']), blocks_eq (Marker.wrap _ _),
      Line.ofText_break (Marker.getLast?_wrap _ _) (by decide) (by decide)]
  · intro hlabels hplace
    obtain ⟨tocLines, htocFramed, htocText⟩ :=
      Render.sectionToc_framed False hsections (Or.inr hlabels)
    rw [hheadings tocLines htocText]
    cases h : d.second? with
    | none => rw [before_none h, after_none h, headings_assembled_end hnavFramed htocFramed]
    | some t =>
      have hafter := hplace.resolve_left (by simp [h])
      rw [headings_assembled_before hnavFramed htocFramed (endsLine_before hd)
        (meetsAt_before_after hd h) (isOpen_before hd h hafter) hafter, before_append_after h]

/-- A document with a heading of the second level and a neighbour. -/
theorem headings_edited_at_margin :
    ∃ (d : Document) (n : Nav) (f : FileEdit), d.Reads "# a\n\n## b\n".toList ∧
      d.findMarker Marker.toc = none ∧ d.findMarker Marker.nav = none ∧ n.next.isSome ∧
      ofDocument {} d n = .ok f ∧ Text.headings "# a\n\n## b\n".toList ≠ [] ∧
      (Text.edited "# a\n\n## b\n".toList f.edits).headings =
        Text.headings "# a\n\n## b\n".toList := by
  let d := Load.ofText {} "a.md".toList "# a\n\n## b\n".toList
  let n : Nav := { next := some (.document (Load.ofText {} "c.md".toList "# c\n".toList)) }
  have hd : d.Reads "# a\n\n## b\n".toList := Load.ofText_reads _ _ _
  have ht : d.findMarker Marker.toc = none := by decide +kernel
  have hn : d.findMarker Marker.nav = none := by decide +kernel
  let nav := Render.ofLines ["|  |  | Next → |".toList, "|:--|:-:|--:|".toList,
    "|  |  | [c](c.md) |".toList]
  have hf := (ofDocument_eq_ok (s := {}) (d := d) (n := n)).mpr ⟨nav, by decide +kernel, rfl⟩
  have hkept := (headings_edited hd ht hn hf (by decide +kernel) (by decide +kernel)
    (by decide +kernel)).2 (by decide +kernel) (Or.inr (by decide +kernel))
  exact ⟨d, n, _, hd, ht, hn, rfl, hf, by decide +kernel, hkept⟩

/-- The heading in a list item is indented so far that it is code once the list has ended. -/
theorem headings_not_kept :
    ∃ (d : Document) (f : FileEdit), d.Reads "1234567. a\n\n         ## b\n".toList ∧
      d.findMarker Marker.toc = none ∧ d.findMarker Marker.nav = none ∧
      ofDocument {} d {} = .ok f ∧
      Text.headings "1234567. a\n\n         ## b\n".toList = [⟨2, ['b']⟩] ∧
      (Text.edited "1234567. a\n\n         ## b\n".toList f.edits).headings = [] := by
  refine ⟨Load.ofText {} "a.md".toList "1234567. a\n\n         ## b\n".toList, _,
    Load.ofText_reads _ _ _, ?_, ?_, ofDocument_eq_ok.mpr ⟨[], rfl, rfl⟩, ?_, ?_⟩
  all_goals decide +kernel

end Plan

end DocTree
