import DocTree.Proofs.Plan.Opened

/-!
# Blocks that are found where they were written

The blocks that the first run writes are found again, just where they were written, unless
something above the table of contents is still open there, or the text around it brings marker
lines of its own when it is read apart from what stands before it.
-/
namespace DocTree

namespace Markdown

def lastRaw? (literal : Text) (blocks : List (Block Text)) : Option Nat :=
  (blocks.reverse.find? (·.kind == .html literal)).map Block.index

variable {literal : Text} {blocks more : List (Block Text)}

theorem lastRaw?_append (literal : Text) (blocks more : List (Block Text)) :
    lastRaw? literal (blocks ++ more) = (lastRaw? literal more).or (lastRaw? literal blocks) := by
  simp [lastRaw?, List.find?_append, Option.map_or]

theorem lastRaw?_cons (literal : Text) (b : Block Text) (blocks : List (Block Text)) :
    lastRaw? literal (b :: blocks) =
      (lastRaw? literal blocks).or (if b.kind = .html literal then some b.index else none) := by
  rw [← List.singleton_append, lastRaw?_append]
  congr 1
  by_cases h : b.kind = .html literal <;> simp [lastRaw?, h]

theorem lastRaw?_renumber (literal : Text) (g : Nat → Nat) (blocks : List (Block Text)) :
    lastRaw? literal (blocks.map (Block.renumber g)) = (lastRaw? literal blocks).map g := by
  induction blocks with
  | nil => rfl
  | cons b blocks ih =>
    rw [List.map_cons, lastRaw?_cons, lastRaw?_cons, ih, Option.map_or, Block.kind_renumber]
    split <;> rfl

theorem lastRaw?_quiet {definitions : Prop} (h : ∀ b ∈ blocks, b.IsQuiet definitions)
    (literal : Text) : lastRaw? literal blocks = none := by
  rw [lastRaw?, Option.map_eq_none_iff, List.find?_eq_none]
  intro b hb hkind
  have hquiet := h b (List.mem_reverse.mp hb)
  rw [Block.IsQuiet, beq_iff_eq.mp hkind] at hquiet
  exact hquiet

theorem exists_of_lastRaw? {i : Nat} (h : lastRaw? literal blocks = some i) :
    ∃ b ∈ blocks, b.index = i := by
  obtain ⟨b, hb, rfl⟩ := Option.map_eq_some_iff.mp h
  exact ⟨b, List.mem_reverse.mp (List.mem_of_find?_eq_some hb), rfl⟩

theorem lastIndex?_append (literal : Text) (page rest : Page) :
    Marker.lastIndex? literal (page ++ rest) =
      (Marker.lastIndex? literal rest).or (Marker.lastIndex? literal page) := by
  simp [Marker.lastIndex?, Page.raws, List.find?_append, Option.map_or]

/-- What a page has of raw HTML is what the blocks have. -/
theorem lastIndex?_ofText (literal s : Text) :
    Marker.lastIndex? literal (Page.ofText s) = lastRaw? literal (Markdown.blocks s) := by
  have hall : ∀ (f : Text → List Inline) (blocks : List (Block Text)),
      Marker.lastIndex? literal (blocks.map (Block.map f)) = lastRaw? literal blocks := by
    intro f blocks
    induction blocks with
    | nil => rfl
    | cons b blocks ih =>
      rw [lastRaw?_cons, List.map_cons, ← List.singleton_append, lastIndex?_append, ih]
      obtain ⟨index, kind⟩ := b
      congr 1
      cases kind with
      | html written => by_cases h : written = literal <;> simp [Marker.lastIndex?, Page.raws,
          Block.map, BlockKind.map, h]
      | _ => simp [Marker.lastIndex?, Page.raws, Block.map, BlockKind.map]
  exact hall _ _

end Markdown

/-- Read on its own, the text has no marker line of the kind. -/
def Marker.AbsentFrom (m : Marker) (s : Text) : Prop :=
  lastIndex? m.beginLine (Markdown.Page.ofText s) = none ∧
    lastIndex? m.endLine (Markdown.Page.ofText s) = none

instance (m : Marker) (s : Text) : Decidable (m.AbsentFrom s) :=
  inferInstanceAs (Decidable (_ ∧ _))

namespace Document

variable {d : Document} {m : Marker}

/-- Both marker lines are found. -/
theorem findMarker_eq_between_iff {first last : Nat} (h : first ≤ last) :
    d.findMarker m = some (Span.between first (last + 1)) ↔
      Marker.lastIndex? m.beginLine d.page = some first ∧
        Marker.lastIndex? m.endLine d.page = some last := by
  rw [findMarker_eq]
  constructor
  · intro hfind
    obtain ⟨first', hfirst, hspan⟩ := Option.map_eq_some_iff.mp hfind
    have hstart := congrArg Span.start hspan
    have hpast := congrArg Span.past hspan
    rw [start_blockSpan, Span.start_between] at hstart
    obtain rfl : first' = first := by omega
    refine ⟨hfirst, ?_⟩
    cases hlast : Marker.lastIndex? m.endLine d.page with
    | none =>
      rw [hlast, past_blockSpan_none, Span.past_between, if_pos (by omega)] at hpast
      omega
    | some last' =>
      rw [hlast, past_blockSpan_some, Span.past_between, if_pos (Nat.lt_succ_of_le h)] at hpast
      split at hpast
      · rw [show last' = last by omega]
      · omega
  · rintro ⟨hfirst, hlast⟩
    rw [hfirst, hlast]
    rfl

end Document

namespace Markdown.Framed

variable {definitions : Prop} {first last : Text} {content : List Text}

theorem lastRaw?_eq (h : Framed definitions first last content) (literal : Text) :
    lastRaw? literal (Markdown.blocks (text first last content)) =
      if literal = last then some (content.length + 1)
      else if literal = first then some 0 else none := by
  obtain ⟨quiet, hquiet, hblocks⟩ := h.blocks
  rw [hblocks, lastRaw?_cons, lastRaw?_append, lastRaw?_quiet hquiet, lastRaw?_cons]
  simp only [lastRaw?, List.reverse_nil, List.find?_nil, Option.map_none, Option.none_or,
    Option.or_none, BlockKind.html.injEq]
  by_cases hlast : literal = last
  · rw [if_pos hlast.symm, if_pos hlast, Option.some_or]
  · rw [if_neg (Ne.symm hlast), if_neg hlast, Option.none_or]
    simp only [eq_comm]

end Markdown.Framed

namespace Plan

open Markdown

section

variable {definitions : Prop} {navLines tocLines : List Text} {above below : Text}
  (hnav : Framed False Marker.nav.beginLine Marker.nav.endLine navLines)
  (htoc : Framed definitions Marker.toc.beginLine Marker.toc.endLine tocLines)
  (habove : above.EndsLine)
include hnav htoc habove

/-- Where nothing is open above the table of contents, both blocks and the text around the second
are read each on its own. -/
theorem blocks_assembled (hopen : isOpen above = false) :
    blocks (assembled navLines above tocLines below) =
      blocks (Framed.text Marker.nav.beginLine Marker.nav.endLine navLines) ++
        (blocks above ++
          (blocks (Framed.text Marker.toc.beginLine Marker.toc.endLine tocLines) ++
            (blocks below).map (Block.renumber (· + (tocLines.length + 2)))).map
              (Block.renumber (· + above.lineCount))).map
                (Block.renumber (· + (navLines.length + 2))) := by
  rw [assembled, hnav.blocks_append,
    blocks_append habove (htoc.meetsAt above below) hopen (htoc.tail below), htoc.blocks_append]

/-- Nothing is open above the table of contents if a block is read on its first line. -/
theorem isOpen_eq_false_of_lastRaw? {literal : Text}
    (h : lastRaw? literal (blocks (assembled navLines above tocLines below)) =
      some (navLines.length + 2 + above.lineCount)) : isOpen above = false := by
  obtain ⟨b, hb, hindex⟩ := exists_of_lastRaw? h
  rw [assembled, hnav.blocks_append] at hb
  rcases List.mem_append.mp hb with hb | hb
  · have hlt := blocks_index_lt hb
    rw [hnav.lineCount] at hlt
    omega
  · obtain ⟨c, hc, rfl⟩ := List.mem_map.mp hb
    rw [Block.index_renumber] at hindex
    have hfirst : c.index = above.lineCount := by omega
    exact isOpen_eq_false_of_mem habove (htoc.meetsAt above below) (htoc.tail below) hc hfirst

/-- A marker line of the navigation is the last of its kind if there is none in the text. -/
theorem lastRaw?_nav_iff (below literal : Text) (hopen : isOpen above = false) {i : Nat}
    (hi : i < navLines.length + 2)
    (hline : lastRaw? literal (blocks (Framed.text Marker.nav.beginLine Marker.nav.endLine
      navLines)) = some i)
    (hother : lastRaw? literal (blocks (Framed.text Marker.toc.beginLine Marker.toc.endLine
      tocLines)) = none) :
    lastRaw? literal (blocks (assembled navLines above tocLines below)) = some i ↔
      lastRaw? literal (blocks above) = none ∧ lastRaw? literal (blocks below) = none := by
  rw [blocks_assembled hnav htoc habove hopen]
  simp only [lastRaw?_append, lastRaw?_renumber, hline, hother, Option.or_none]
  cases habove : lastRaw? literal (blocks above) with
  | some j =>
    cases hbelow : lastRaw? literal (blocks below) with
    | some k =>
      simp
      omega
    | none =>
      simp
      omega
  | none =>
    cases hbelow : lastRaw? literal (blocks below) with
    | some k =>
      simp
      omega
    | none => simp

/-- A marker line of the table of contents is the last of its kind if there is none behind it. -/
theorem lastRaw?_toc_iff (below literal : Text) (hopen : isOpen above = false) {i : Nat}
    (hi : i < tocLines.length + 2)
    (hline : lastRaw? literal (blocks (Framed.text Marker.toc.beginLine Marker.toc.endLine
      tocLines)) = some i) :
    lastRaw? literal (blocks (assembled navLines above tocLines below)) =
        some (navLines.length + 2 + above.lineCount + i) ↔
      lastRaw? literal (blocks below) = none := by
  rw [blocks_assembled hnav htoc habove hopen]
  simp only [lastRaw?_append, lastRaw?_renumber, hline]
  cases hbelow : lastRaw? literal (blocks below) with
  | some k =>
    simp
    omega
  | none =>
    simp
    omega

variable {d : Document} (hd : ∀ literal, Marker.lastIndex? literal d.page =
  lastRaw? literal (blocks (assembled navLines above tocLines below)))
include hd

/-- Where nothing is open above the table of contents, the navigation is found if the text around
the table has no marker lines of navigations. -/
theorem nav_found_iff (hopen : isOpen above = false) :
    d.findMarker Marker.nav = some (Span.between 0 (navLines.length + 2)) ↔
      Marker.nav.AbsentFrom above ∧ Marker.nav.AbsentFrom below := by
  have hlines : Marker.nav.beginLine ≠ Marker.nav.endLine ∧
      Marker.nav.beginLine ≠ Marker.toc.beginLine ∧ Marker.nav.beginLine ≠ Marker.toc.endLine ∧
      Marker.nav.endLine ≠ Marker.toc.beginLine ∧ Marker.nav.endLine ≠ Marker.toc.endLine := by
    decide
  obtain ⟨hown, hbb, hbe, heb, hee⟩ := hlines
  have hfirst := lastRaw?_nav_iff hnav htoc habove below Marker.nav.beginLine hopen (Nat.succ_pos _)
    (by simp [hnav.lastRaw?_eq, hown]) (by simp [htoc.lastRaw?_eq, hbb, hbe])
  have hlast := lastRaw?_nav_iff hnav htoc habove below Marker.nav.endLine hopen
    (Nat.lt_succ_self _)
    (by simp [hnav.lastRaw?_eq]) (by simp [htoc.lastRaw?_eq, heb, hee])
  rw [Document.findMarker_eq_between_iff (Nat.zero_le (navLines.length + 1)), hd, hd, hfirst, hlast]
  simp only [Marker.AbsentFrom, lastIndex?_ofText]
  exact and_and_and_comm

/-- The table of contents is found if there are no marker lines of its kind behind it. -/
theorem toc_found_iff (hopen : isOpen above = false) :
    d.findMarker Marker.toc = some (Span.between (navLines.length + 2 + above.lineCount)
        (navLines.length + 2 + above.lineCount + (tocLines.length + 2))) ↔
      Marker.toc.AbsentFrom below := by
  have hown : Marker.toc.beginLine ≠ Marker.toc.endLine := by decide
  have hfirst := lastRaw?_toc_iff hnav htoc habove below Marker.toc.beginLine hopen (Nat.succ_pos _)
    (by simp [htoc.lastRaw?_eq, hown])
  have hlast := lastRaw?_toc_iff hnav htoc habove below Marker.toc.endLine hopen
    (Nat.lt_succ_self _)
    (by simp [htoc.lastRaw?_eq])
  rw [← Nat.add_assoc _ (tocLines.length + 1) 1,
    Document.findMarker_eq_between_iff (Nat.le_add_right _ (tocLines.length + 1)), hd, hd, hlast]
  simp only [Marker.AbsentFrom, lastIndex?_ofText]
  exact and_congr_left' hfirst

/-- Both blocks are found where they were written, exactly if nothing is open above the second and
the text around it has no marker lines that would count. -/
theorem found_iff :
    d.findMarker Marker.nav = some (Span.between 0 (navLines.length + 2)) ∧
        d.findMarker Marker.toc = some (Span.between (navLines.length + 2 + above.lineCount)
          (navLines.length + 2 + above.lineCount + (tocLines.length + 2))) ↔
      isOpen above = false ∧ Marker.nav.AbsentFrom above ∧ Marker.nav.AbsentFrom below ∧
        Marker.toc.AbsentFrom below := by
  constructor
  · rintro ⟨hnavFound, htocFound⟩
    have hfirst := (Document.findMarker_eq_between_iff
      (Nat.le_add_right _ (tocLines.length + 1))).mp htocFound
    rw [hd] at hfirst
    have hopen := isOpen_eq_false_of_lastRaw? hnav htoc habove hfirst.1
    obtain ⟨hnavAbove, hnavBelow⟩ := (nav_found_iff hnav htoc habove hd hopen).mp hnavFound
    exact ⟨hopen, hnavAbove, hnavBelow, (toc_found_iff hnav htoc habove hd hopen).mp htocFound⟩
  · rintro ⟨hopen, hnavAbove, hnavBelow, htocBelow⟩
    exact ⟨(nav_found_iff hnav htoc habove hd hopen).mpr ⟨hnavAbove, hnavBelow⟩,
      (toc_found_iff hnav htoc habove hd hopen).mpr htocBelow⟩

end

/-- The blocks that the first run writes into a document are found again. Its text then holds them
on the lines of their spans, and `findMarker` gives these spans exactly if nothing is open at the
place of the table of contents, and the text around that place, read in two pieces, has no marker
lines that would count instead. -/
theorem written_found_iff {s : Settings} {d d' : Document} {text : Text} {n : Nav} {f : FileEdit}
    (hd : d.Reads text) (ht : d.findMarker Marker.toc = none) (hn : d.findMarker Marker.nav = none)
    (hf : ofDocument s d n = .ok f) (hs : s.Unbroken) (hnav : n.Unbroken)
    (hsections : ∀ x ∈ Section.flattenAll s.tocDepth d.sections, x.Unbroken ∧ x.level ≤ 6)
    (hd' : d'.Reads (text.edited f.edits)) :
    ∃ nav toc rest, f.edits.map Edit.content = [toc, nav] ∧
      text.edited f.edits = nav ++ '\n' :: (before d text ++ (toc ++ rest)) ∧
      (text.edited f.edits).slice (Span.ofBlock [] nav) = nav ∧
      (text.edited f.edits).slice (Span.ofBlock (nav ++ '\n' :: before d text) toc) = toc ∧
      (d'.findMarker Marker.nav = some (Span.ofBlock [] nav) ∧
          d'.findMarker Marker.toc = some (Span.ofBlock (nav ++ '\n' :: before d text) toc) ↔
        isOpen (before d text) = false ∧ Marker.nav.AbsentFrom (before d text) ∧
          Marker.nav.AbsentFrom (after d text) ∧ Marker.toc.AbsentFrom (after d text)) := by
  obtain ⟨nav, hrender, rfl⟩ := ofDocument_eq_ok.mp hf
  obtain ⟨navLines, hnavFramed, hnavText⟩ := Render.nav_framed hs hnav hrender
  obtain ⟨tocLines, htocFramed, htocText⟩ :=
    Render.sectionToc_framed True hsections (Or.inl trivial)
  have hblocks := blocks_edited hd ht hn hnavText htocText
  have htext := edited_fresh hd ht hn (Render.sectionToc d.sections s.tocDepth) nav
  obtain ⟨rest, hopened, hrest⟩ := exists_opened d text (Marker.nav.wrap nav)
    (Marker.toc.wrap (Render.sectionToc d.sections s.tocDepth))
  rw [← htext] at hopened
  have hnavCount := hnavFramed.lineCount
  have htocCount := htocFramed.lineCount
  rw [← hnavText, Text.lineCount_append_break (Marker.not_endsLine_wrap _ _)] at hnavCount
  rw [← htocText, Text.lineCount_append_break (Marker.not_endsLine_wrap _ _)] at htocCount
  have habove : (Marker.nav.wrap nav ++ '\n' :: before d text).EndsLine :=
    (Text.endsLine_append_break _ _).mpr (endsLine_before hd)
  have haboveCount := Text.lineCount_break_append (Marker.not_endsLine_wrap Marker.nav nav)
    (before d text)
  refine ⟨Marker.nav.wrap nav, Marker.toc.wrap (Render.sectionToc d.sections s.tocDepth), rest, rfl,
    hopened, ?_, ?_, ?_⟩
  · rw [hopened]
    have hempty : Text.EndsLine [] := by simp [Text.EndsLine]
    exact Text.slice_ofBlock hempty (Marker.head?_wrap _ _) (Marker.getLast?_wrap _ _)
      (Or.inr ⟨_, rfl⟩)
  · have hassoc : Marker.nav.wrap nav ++ '\n' :: (before d text ++
        (Marker.toc.wrap (Render.sectionToc d.sections s.tocDepth) ++ rest)) =
        (Marker.nav.wrap nav ++ '\n' :: before d text) ++
          (Marker.toc.wrap (Render.sectionToc d.sections s.tocDepth) ++ rest) := by simp
    rw [hopened, hassoc]
    refine Text.slice_ofBlock habove (Marker.head?_wrap _ _) (Marker.getLast?_wrap _ _) ?_
    exact hrest.imp And.left fun h => ⟨_, h⟩
  · have hpage : ∀ literal, Marker.lastIndex? literal d'.page = lastRaw? literal
        (blocks (assembled navLines (before d text) tocLines (after d text))) := by
      intro literal
      rw [hd'.page, lastIndex?_ofText, hblocks]
    have hempty : Text.lineCount [] = 0 := rfl
    rw [Span.ofBlock, Span.ofBlock, haboveCount, hnavCount, htocCount, hempty, Nat.zero_add]
    exact found_iff hnavFramed htocFramed (endsLine_before hd) hpage

/-- A document with a heading of the second level and a neighbour. -/
theorem written_found_before_heading :
    ∃ (d d' : Document) (n : Nav) (f : FileEdit), d.Reads "# a\n\n## b\n".toList ∧
      d.findMarker Marker.toc = none ∧ d.findMarker Marker.nav = none ∧ n.next.isSome ∧
      ofDocument {} d n = .ok f ∧ d'.Reads (Text.edited "# a\n\n## b\n".toList f.edits) ∧
      d'.findMarker Marker.nav = some (Span.between 0 5) ∧
      d'.findMarker Marker.toc = some (Span.between 7 14) := by
  let d := Load.ofText {} "a.md".toList "# a\n\n## b\n".toList
  let n : Nav := { next := some (.document (Load.ofText {} "c.md".toList "# c\n".toList)) }
  have hd : d.Reads "# a\n\n## b\n".toList := Load.ofText_reads _ _ _
  have ht : d.findMarker Marker.toc = none := by decide +kernel
  have hn : d.findMarker Marker.nav = none := by decide +kernel
  let nav := Render.ofLines ["|  |  | Next → |".toList, "|:--|:-:|--:|".toList,
    "|  |  | [c](c.md) |".toList]
  have hf := (ofDocument_eq_ok (s := {}) (d := d) (n := n)).mpr ⟨nav, by decide +kernel, rfl⟩
  let d' := Load.ofText {} "a.md".toList (Text.edited "# a\n\n## b\n".toList
    (fileEdit d (Render.sectionToc d.sections 3) nav).edits)
  have hd' : d'.Reads _ := Load.ofText_reads _ _ _
  obtain ⟨nav', toc', -, hcontents, -, -, -, hfound⟩ := written_found_iff hd ht hn hf
    (by decide +kernel) (by decide +kernel) (by decide +kernel) hd'
  obtain ⟨rfl, hrest⟩ := List.cons.inj hcontents
  obtain ⟨rfl, -⟩ := List.cons.inj hrest
  obtain ⟨hnavFound, htocFound⟩ := hfound.mpr (by decide +kernel)
  refine ⟨d, d', n, _, hd, ht, hn, rfl, hf, hd', hnavFound.trans ?_, htocFound.trans ?_⟩
  · decide +kernel
  · decide +kernel

/-- The table of contents inside code that is never closed. -/
theorem written_not_found :
    ∃ (d d' : Document) (f : FileEdit), d.Reads "```\n".toList ∧
      d.findMarker Marker.toc = none ∧ d.findMarker Marker.nav = none ∧
      ofDocument {} d {} = .ok f ∧ d'.Reads (Text.edited "```\n".toList f.edits) ∧
      Text.edited "```\n".toList f.edits =
        "<!-- BEGIN NAV -->\n<!-- END NAV -->\n```\n<!-- BEGIN TOC -->\n<!-- END TOC -->\n".toList ∧
      d'.findMarker Marker.toc = none := by
  refine ⟨Load.ofText {} "a.md".toList "```\n".toList, Load.ofText {} "a.md".toList _, _,
    Load.ofText_reads _ _ _, ?_, ?_, ofDocument_eq_ok.mpr ⟨[], rfl, rfl⟩,
    Load.ofText_reads _ _ _, ?_, ?_⟩
  all_goals decide +kernel

end Plan

end DocTree
