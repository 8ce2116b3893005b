import DocTree.Marker
import DocTree.Proofs.Render.Cells
import DocTree.Proofs.Render.OneLine
import DocTree.Proofs.Text.Inner

/-!
# What blocks show

A block is woven of titles and paths, which may hold anything, and of fixed texts between them. Each
fixed text holds a character that no marker line has. So a marker line comes out of a block only
where a title or a path holds it between two breaks of its own.
-/
namespace DocTree

namespace Marker

def lines : List Text :=
  [toc.beginLine, toc.endLine, nav.beginLine, nav.endLine]

def IsForeign (s : Text) : Prop :=
  ∃ c ∈ s, ∀ line ∈ lines, c ∉ line

variable {s : Text}

/-- Brackets and bars stand in no marker line. -/
theorem isForeign_of_mem {c : Char} (h : c ∈ s) (hc : c ∈ ['[', ']', ')', '|']) : IsForeign s := by
  have hc : c = '[' ∨ c = ']' ∨ c = ')' ∨ c = '|' := by simpa using hc
  refine ⟨c, h, ?_⟩
  rcases hc with rfl | rfl | rfl | rfl <;> decide

theorem IsForeign.notMem_lines (h : IsForeign s) : s ∉ lines := by
  obtain ⟨c, hc, hnone⟩ := h
  exact fun hs => hnone s hs hc

theorem IsForeign.append_left (h : IsForeign s) (t : Text) : IsForeign (t ++ s) := by
  obtain ⟨c, hc, hnone⟩ := h
  exact ⟨c, List.mem_append_right t hc, hnone⟩

theorem IsForeign.append_right (h : IsForeign s) (t : Text) : IsForeign (s ++ t) := by
  obtain ⟨c, hc, hnone⟩ := h
  exact ⟨c, List.mem_append_left t hc, hnone⟩

theorem IsForeign.ne_nil (h : IsForeign s) : s ≠ [] := by
  rintro rfl
  obtain ⟨c, hc, -⟩ := h
  cases hc

end Marker

namespace Render

/-- Fixed texts without breaks, and free ones between them. -/
inductive Woven : List Text → Text → Prop
  | fixed {c : Text} (hc : c.Unbroken) (hforeign : Marker.IsForeign c) : Woven [] c
  | free {c t s : Text} {texts : List Text} (hc : c.Unbroken) (hforeign : Marker.IsForeign c)
      (h : Woven texts s) : Woven (t :: texts) (c ++ t ++ s)

namespace Woven

variable {texts more : List Text} {s t c : Text}

theorem fixed_append (h : Woven texts s) (hc : c.Unbroken) : Woven texts (c ++ s) := by
  cases h with
  | fixed hd hforeign => exact .fixed (Text.unbroken_append.mpr ⟨hc, hd⟩) (hforeign.append_left c)
  | free hd hforeign hmore =>
    rw [List.append_assoc, ← List.append_assoc c, ← List.append_assoc]
    exact .free (Text.unbroken_append.mpr ⟨hc, hd⟩) (hforeign.append_left c) hmore

theorem append_fixed (h : Woven texts s) (hc : c.Unbroken) : Woven texts (s ++ c) := by
  induction h with
  | fixed hd hforeign => exact .fixed (Text.unbroken_append.mpr ⟨hd, hc⟩) (hforeign.append_right c)
  | free hd hforeign _ ih =>
    rw [List.append_assoc]
    exact .free hd hforeign ih

theorem append (h : Woven texts s) (ht : Woven more t) : Woven (texts ++ more) (s ++ t) := by
  induction h with
  | fixed hd _ => exact ht.fixed_append hd
  | free hd hforeign _ ih =>
    rw [List.append_assoc]
    exact .free hd hforeign ih

theorem ne_nil (h : Woven texts s) : s ≠ [] := by
  cases h with
  | fixed _ hforeign => exact hforeign.ne_nil
  | free _ hforeign _ => simp [hforeign.ne_nil]

/-- A woven text ends with a fixed one, and so with no break. -/
theorem getLast?_ne (h : Woven texts s) : s.getLast? ≠ some '\r' := by
  induction h with
  | fixed hc _ => exact fun hlast => hc.2 (List.mem_of_getLast? hlast)
  | free _ _ hmore ih => rwa [List.getLast?_append_of_ne_nil _ hmore.ne_nil]

theorem head?_ne (h : Woven texts s) : s.head? ≠ some '\n' := by
  cases h with
  | fixed hc _ => exact fun hhead => hc.1 (List.mem_of_head? hhead)
  | free hc hforeign _ =>
    rw [List.append_assoc, List.head?_append_of_ne_nil _ hforeign.ne_nil]
    exact fun hhead => hc.1 (List.mem_of_head? hhead)

/-- Behind the first line of a woven text, the marker lines are those within the free texts. -/
theorem exists_lines (h : Woven texts s) :
    ∃ first rest, (Lines.ofText s).lines = first :: rest ∧ Marker.IsForeign first ∧
      ∀ line ∈ Marker.lines, line ∈ rest ↔ ∃ t ∈ texts, line ∈ t.inner := by
  induction h with
  | @fixed c hc hforeign => exact ⟨c, [], Text.lines_unbroken hc, hforeign, by simp⟩
  | @free c t s texts hc hforeign hs ih =>
    -- The last line of the free text goes on with a fixed one, so it is no marker line either.
    obtain ⟨first, rest, hlines, hfirst, hrest⟩ := ih
    obtain ⟨front, last, _, _, ht, hs', hjoined⟩ :=
      Text.exists_lines_append (Text.meetsAt_of_head?_ne hs.head?_ne t)
    rw [hlines] at hs'
    cases hs'
    obtain ⟨begin, behind, hbegin, hall⟩ := Text.exists_lines_unbroken_append hc (t ++ s)
    rw [hjoined] at hbegin
    rw [List.append_assoc]
    refine ⟨c ++ begin, behind, hall, hforeign.append_right begin, ?_⟩
    intro line hline
    have hglued : line ≠ last ++ first := by
      rintro rfl
      exact (hfirst.append_left last).notMem_lines hline
    have hbehind : line ∈ behind ↔ line ∈ t.inner ∨ line ∈ rest := by
      cases front with
      | nil =>
        cases hbegin
        simp [Text.inner, ht]
      | cons _ front =>
        cases hbegin
        simp [Text.inner, ht, hglued]
    rw [hbehind, hrest line hline]
    simp

end Woven

/-- Of the lines of a content exactly those are marker lines that some texts hold within them. -/
structure Shows (texts : List Text) (content : Text) : Prop where
  ending : content.getLast? ≠ some '\r'
  forged : ∀ line ∈ Marker.lines,
    line ∈ (Lines.ofText content).lines ↔ ∃ t ∈ texts, line ∈ t.inner

variable {texts more : List Text} {content rest : Text}

theorem shows_fixed (h : content.Unbroken) (hline : content ∉ Marker.lines) : Shows [] content := by
  constructor
  · exact fun hlast => h.2 (List.mem_of_getLast? hlast)
  · intro line hmarker
    rw [Text.lines_unbroken h]
    have hne : line ≠ content := by
      rintro rfl
      exact hline hmarker
    simp [hne]

theorem Woven.shows (h : Woven texts content) : Shows texts content := by
  obtain ⟨first, rest, hlines, hfirst, hrest⟩ := h.exists_lines
  refine ⟨h.getLast?_ne, ?_⟩
  intro line hline
  have hne : line ≠ first := by
    rintro rfl
    exact hfirst.notMem_lines hline
  rw [hlines, List.mem_cons, or_iff_right hne, hrest line hline]

/-- Contents one below the other show the texts of both. -/
theorem Shows.append_lf (h : Shows texts content) (hmore : Shows more rest) :
    Shows (texts ++ more) (content ++ '\n' :: rest) := by
  constructor
  · cases rest with
    | nil => simp
    | cons c rest =>
      rw [List.getLast?_append_of_ne_nil _ (List.cons_ne_nil _ _), List.getLast?_cons_cons]
      exact hmore.ending
  · intro line hline
    rw [Text.lines_append_lf h.ending, List.mem_append, h.forged line hline,
      hmore.forged line hline]
    simp [or_and_right, exists_or]

/-- A content of rows shows what the rows show. -/
theorem shows_ofLines {groups : List (List Text)} {rows : List Text}
    (h : List.Forall₂ Shows groups rows) : Shows groups.flatten (ofLines rows) := by
  induction h with
  | nil => exact shows_fixed (by decide) (by decide)
  | @cons texts row groups rows hrow hrows ih =>
    cases hrows with
    | nil => simpa [ofLines] using hrow
    | cons _ _ =>
      rw [ofLines, List.intercalate_cons_cons, List.append_assoc]
      exact hrow.append_lf ih

section

variable {s : Settings} {filename : Text}

def linkTexts (s : Settings) (filename : Text) (o : Entry) : List Text :=
  o.title :: (target s filename o).toOption.toList

theorem woven_link (title path : Text) : Woven [title, path] (link title path) := by
  have hend : Woven [] [')'] :=
    .fixed (by decide) (Marker.isForeign_of_mem (c := ')') (by decide) (by decide))
  have hpath : Woven [path] ("](".toList ++ path ++ [')']) :=
    .free (by decide) (Marker.isForeign_of_mem (c := ']') (by decide) (by decide)) hend
  have hlink : Woven [title, path] (['['] ++ title ++ ("](".toList ++ path ++ [')'])) :=
    .free (by decide) (Marker.isForeign_of_mem (c := '[') (by decide) (by decide)) hpath
  simpa [link] using hlink

theorem woven_entryLink {o : Entry} {text : Text} (h : entryLink s filename o = .ok text) :
    Woven (linkTexts s filename o) text := by
  obtain ⟨path, hpath, rfl⟩ := entryLink_eq_ok.mp h
  rw [linkTexts, hpath]
  exact woven_link o.title path

/-- A section is shown by its title, if its anchor holds no break. -/
theorem woven_tocLine {x : Section} (h : x.anchor.Unbroken) : Woven [x.title] (tocLine x) := by
  have hend : Woven [] ("](".toList ++ x.anchor ++ [')']) :=
    .fixed (Text.unbroken_append.mpr ⟨Text.unbroken_append.mpr ⟨by decide, h⟩, by decide⟩)
      (Marker.isForeign_of_mem (c := ')') (by simp) (by decide))
  have hlink : Woven [x.title] ("- [".toList ++ x.title ++ ("](".toList ++ x.anchor ++ [')'])) :=
    .free (by decide) (Marker.isForeign_of_mem (c := '[') (by decide) (by decide)) hend
  have hindent : Text.Unbroken (List.replicate (2 * (x.level - 2).toNat) ' ') := by
    constructor
    · exact fun hmem => absurd (List.mem_replicate.mp hmem).2 (by decide)
    · exact fun hmem => absurd (List.mem_replicate.mp hmem).2 (by decide)
  simpa [tocLine, link] using hlink.fixed_append hindent

/-- A table of contents shows what its rows show. -/
theorem shows_toc {groups : List (List Text)} {rows : List Text} {heading : Text}
    (hheading : Shows [] heading) (h : List.Forall₂ Shows groups rows) :
    Shows groups.flatten (ofLines ([tocRule, heading, []] ++ rows ++ [tocRule])) := by
  have hrule : Shows [] tocRule := shows_fixed (by decide) (by decide)
  have hempty : Shows [] [] := shows_fixed (by decide) (by decide)
  have hhead : List.Forall₂ Shows [[], [], []] [tocRule, heading, []] :=
    .cons hrule (.cons hheading (.cons hempty .nil))
  have hall : List.Forall₂ Shows ([[], [], []] ++ groups ++ [[]])
      ([tocRule, heading, []] ++ rows ++ [tocRule]) :=
    List.rel_append (List.rel_append hhead h) (.cons hrule .nil)
  have htexts : ([[], [], []] ++ groups ++ [[]]).flatten = groups.flatten := by simp
  rw [← htexts]
  exact shows_ofLines hall

/-- The table of contents of a document shows the titles of its sections. -/
theorem shows_sectionToc {sections : List Section} {depth : Int}
    (h : ∀ x ∈ Section.flattenAll depth sections, x.anchor.Unbroken) :
    Shows ((Section.flattenAll depth sections).map Section.title) (sectionToc sections depth) := by
  rw [sectionToc]
  split
  · rename_i hempty
    rw [List.isEmpty_iff.mp hempty]
    exact shows_fixed (by decide) (by decide)
  · have hrows : List.Forall₂ Shows
        ((Section.flattenAll depth sections).map fun x => [x.title])
        ((Section.flattenAll depth sections).map tocLine) := by
      rw [List.forall₂_map_left_iff, List.forall₂_map_right_iff, List.forall₂_same]
      exact fun x hx => (woven_tocLine (h x hx)).shows
    have htexts : ((Section.flattenAll depth sections).map fun x => [x.title]).flatten =
        (Section.flattenAll depth sections).map Section.title := by
      rw [← List.flatMap_def, ← List.map_eq_flatMap]
    rw [← htexts]
    exact shows_toc (shows_fixed (by decide) (by decide)) hrows

/-- The list of a directory's entries shows their titles and paths. -/
theorem shows_listing {entries : List Entry} {links : List Text}
    (h : entries.mapM (entryLink s filename) = .ok links) :
    Shows (entries.flatMap (linkTexts s filename)) (listing links) := by
  have hall := forall₂_of_mapM h
  have hrows : List.Forall₂ Shows (entries.map (linkTexts s filename))
      (links.map ("- ".toList ++ ·)) := by
    rw [List.forall₂_map_left_iff, List.forall₂_map_right_iff]
    exact hall.imp fun o link hlink => ((woven_entryLink hlink).fixed_append (by decide)).shows
  rw [listing]
  split
  · rename_i hempty
    rw [List.isEmpty_iff.mp hempty] at hall
    cases hall
    exact shows_fixed (by decide) (by decide)
  · rw [List.flatMap_def]
    exact shows_toc (shows_fixed (by decide) (by decide)) hrows

/-- A cell in a row. -/
theorem Woven.append_cell {texts : List Text} {front : Text} (h : Woven texts front)
    {o : Option Entry} {text : Text} (ho : cell s filename o = .ok text) :
    Woven (texts ++ o.toList.flatMap (linkTexts s filename)) (front ++ text) := by
  cases o with
  | none =>
    cases ho
    simpa using h
  | some e => simpa using h.append (woven_entryLink ho)

/-- A row of cells shows the titles and paths of what they lead to. -/
theorem woven_row {n : Nav} {previous up next : Text}
    (hprevious : cell s filename n.previous = .ok previous)
    (hup : cell s filename n.up = .ok up) (hnext : cell s filename n.next = .ok next) :
    Woven (n.targets.flatMap (linkTexts s filename)) (row previous up next) := by
  have hbar : Woven [] "| ".toList :=
    .fixed (by decide) (Marker.isForeign_of_mem (c := '|') (by decide) (by decide))
  have hleft := (hbar.append_cell hprevious).append_fixed (c := " | ".toList) (by decide)
  have hmiddle := (hleft.append_cell hup).append_fixed (c := " | ".toList) (by decide)
  have hright := (hmiddle.append_cell hnext).append_fixed (c := " |".toList) (by decide)
  rw [Nav.targets, List.flatMap_append, List.flatMap_append]
  exact hright

/-- The titles of the cells show nothing. -/
theorem woven_titles (previous up next : Text) :
    Woven [] (row (cellTitle "← Previous" previous) (cellTitle "↑ Up" up)
      (cellTitle "Next →" next)) :=
  .fixed (row_unbroken (cellTitle_unbroken (by decide) _) (cellTitle_unbroken (by decide) _)
    (cellTitle_unbroken (by decide) _))
    (Marker.isForeign_of_mem (c := '|') (List.mem_append_right _ (by decide)) (by decide))

/-- A navigation shows the titles and paths of what it leads to. -/
theorem shows_table {n : Nav} {previous up next : Text}
    (hprevious : cell s filename n.previous = .ok previous)
    (hup : cell s filename n.up = .ok up) (hnext : cell s filename n.next = .ok next) :
    Shows (n.targets.flatMap (linkTexts s filename)) (table previous up next) := by
  by_cases hempty : previous.isEmpty && up.isEmpty && next.isEmpty
  · have hnone : (previous = [] ∧ up = []) ∧ next = [] := by simpa using hempty
    have htargets : n.targets = [] := by
      simp [Nav.targets, (cell_eq_nil_iff hprevious).mp hnone.1.1,
        (cell_eq_nil_iff hup).mp hnone.1.2, (cell_eq_nil_iff hnext).mp hnone.2]
    rw [table, if_pos hempty, htargets]
    exact shows_fixed (by decide) (by decide)
  · have hrule : Shows [] "|:--|:-:|--:|".toList := shows_fixed (by decide) (by decide)
    rw [table, if_neg hempty]
    have hrows := shows_ofLines (.cons (woven_titles previous up next).shows
      (.cons hrule (.cons (woven_row hprevious hup hnext).shows .nil)))
    simpa using hrows

end

end Render

namespace Marker

/-- The content is a block of the marker, between whose marker lines those lines are marker lines that
some texts hold within them. -/
def Encloses (m : Marker) (content : Text) (texts : List Text) : Prop :=
  ∃ middle, (Lines.ofText content).lines = m.beginLine :: middle ++ [m.endLine] ∧
    ∀ line ∈ lines, line ∈ middle ↔ ∃ t ∈ texts, line ∈ t.inner

theorem encloses_wrap {m : Marker} (hbegin : m.beginLine.Unbroken) (hend : m.endLine.Unbroken)
    {texts : List Text} {content : Text} (h : Render.Shows texts content) :
    m.Encloses (m.wrap content) texts := by
  have hlast : m.beginLine.getLast? ≠ some '\r' :=
    fun hlast => hbegin.2 (List.mem_of_getLast? hlast)
  have hempty : [] ∉ lines := by decide
  by_cases hnil : content = []
  · subst hnil
    refine ⟨[], ?_, ?_⟩
    · have hwrap : m.wrap [] = m.beginLine ++ '\n' :: m.endLine := by simp [wrap]
      rw [hwrap, Text.lines_append_lf hlast, Text.lines_unbroken hbegin, Text.lines_unbroken hend]
    · intro line hline
      have hne : line ≠ [] := by
        rintro rfl
        exact hempty hline
      rw [← h.forged line hline]
      simp [Lines.ofText, Lines.lines, hne]
  · refine ⟨(Lines.ofText content).lines, ?_, h.forged⟩
    have hwrap : m.wrap content = m.beginLine ++ '\n' :: (content ++ '\n' :: m.endLine) := by
      simp [wrap, hnil]
    rw [hwrap, Text.lines_append_lf hlast, Text.lines_append_lf h.ending,
      Text.lines_unbroken hbegin, Text.lines_unbroken hend]
    simp

end Marker

end DocTree
