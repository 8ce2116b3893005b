import DocTree.Proofs.Edit.Within
import DocTree.Proofs.Plan.Keep

/-!
# Planned edits lie in their text

Whatever marker lines and headings a document has, an edit that is planned for it counts lines of
its text or the place after the last of them. So carrying it out takes exactly the lines it names,
and every other line, every break and the block are in what comes out. Of the two edits of a document
this is true, one after the other, as long as they do not reach into each other.
-/
namespace DocTree

/-- The span is a place in front of one of so many lines or behind them, or takes some of them. -/
structure Span.InRange (s : Span) (lines : Nat) : Prop where
  one_le : 1 ≤ s.start
  start_le : s.start ≤ lines + 1
  stop : ∀ n ∈ s.stop, s.start < n ∧ n ≤ lines + 1

theorem Span.inRange_before {i lines : Nat} (h : i ≤ lines) : (before i).InRange lines where
  one_le := Nat.succ_pos i
  start_le := Nat.succ_le_succ h
  stop := by
    intro n hn
    cases hn

theorem Span.InRange.past_le {s : Span} {lines : Nat} (h : s.InRange lines) :
    s.past ≤ lines + 1 := by
  cases hstop : s.stop with
  | none =>
    have := h.start_le
    simpa [past, hstop] using this
  | some n =>
    have := (h.stop n hstop).2
    simpa [past, hstop] using this

namespace Document

variable {d : Document} {text : Text} {m : Marker}

/-- A block that is found takes lines of the text, at least one. -/
theorem Reads.inRange_findMarker (hd : d.Reads text) {span : Span}
    (h : d.findMarker m = some span) : span.InRange text.lineCount := by
  rw [findMarker_eq] at h
  obtain ⟨first, hfirst, rfl⟩ := Option.map_eq_some_iff.mp h
  have hlt := hd.lastIndex?_lt hfirst
  rw [hd.lineCount] at hlt
  cases hlast : Marker.lastIndex? m.endLine d.page with
  | none => exact Span.inRange_before (Nat.le_of_lt hlt)
  | some last =>
    have hlastLt := hd.lastIndex?_lt hlast
    rw [hd.lineCount] at hlastLt
    rw [blockSpan, Span.between]
    split
    · rename_i hle
      constructor
      · exact Nat.succ_pos first
      · exact Nat.succ_le_succ (Nat.le_of_lt hlt)
      · intro n hn
        cases hn
        exact ⟨by simpa using hle, by omega⟩
    · exact Span.inRange_before (Nat.le_of_lt hlt)

/-- As `firstOf_eq_before`, with the places given by name. -/
theorem Reads.firstNamed_eq_before (hd : d.Reads text) {names : List Text} {span : Span}
    (h : d.firstNamed names = .ok span) : ∃ i, i ≤ d.lineCount ∧ span = Span.before i := by
  induction names with
  | nil => exact ⟨d.lineCount, Nat.le_refl _, (Except.ok.inj h).symm⟩
  | cons name rest ih =>
    rw [firstNamed, findNamed] at h
    cases hname : Location.ofName? name with
    | none =>
      rw [hname] at h
      cases h
    | some location =>
      simp only [hname] at h
      cases hfind : d.find? location with
      | none =>
        simp only [hfind] at h
        exact ih h
      | some found =>
        simp only [hfind] at h
        obtain ⟨i, hi, hfirst⟩ := hd.firstOf_eq_before [location]
        refine ⟨i, hi, ?_⟩
        rw [← hfirst, firstOf, List.findSome?_cons, hfind]
        exact (Except.ok.inj h).symm

/-- The edits that may be planned for a block: the places it may go to are given outright or by
name. -/
def Plans (d : Document) (m : Marker) (content : Text) (e : Edit) : Prop :=
  (∃ locations, d.editFor m content locations = e) ∨
    ∃ names, d.editForNamed m content names = .ok e

theorem Reads.inRange_of_plans (hd : d.Reads text) {content : Text} {e : Edit}
    (h : d.Plans m content e) : e.span.InRange text.lineCount ∧ e.content = m.wrap content := by
  rcases h with ⟨locations, rfl⟩ | ⟨names, h⟩
  · refine ⟨?_, rfl⟩
    cases hfind : d.findMarker m with
    | some span => simpa [editFor, hfind] using hd.inRange_findMarker hfind
    | none =>
      obtain ⟨i, hi, hfirst⟩ := hd.firstOf_eq_before locations
      rw [hd.lineCount] at hi
      simpa [editFor, hfind, hfirst] using Span.inRange_before hi
  · rw [editForNamed] at h
    cases hfind : d.findMarker m with
    | some span =>
      rw [hfind] at h
      cases h
      exact ⟨hd.inRange_findMarker hfind, rfl⟩
    | none =>
      rw [hfind] at h
      obtain ⟨span, hspan, rfl⟩ := map_eq_ok.mp h
      obtain ⟨i, hi, rfl⟩ := hd.firstNamed_eq_before hspan
      rw [hd.lineCount] at hi
      exact ⟨Span.inRange_before hi, rfl⟩

end Document

/-- A single edit within a text shows line by line what it is said to. -/
theorem Edit.edited_singleton {text : Text} {e : Edit} (h : e.span.past ≤ text.rows.length + 1) :
    text.edited [e] = spliced [e] 1 text.rows := by
  refine toText_foldl_apply (Draft.hasRows_ofText text) ?_ (List.pairwise_singleton _ _)
    (List.pairwise_singleton _ _)
  intro f hf
  rw [List.mem_singleton.mp hf]
  exact h

theorem Marker.length_le_length_wrap (m : Marker) (content : Text) :
    content.length ≤ (m.wrap content).length := by
  unfold wrap
  split
  · simp_all
  · simp
    omega

/-- Of two planned edits that reach into each other one block never shows: what comes out is the same
whatever is in it. -/
theorem Document.Reads.edited_of_not_apart {d : Document} {text : Text} (hd : d.Reads text)
    (h : ¬ (Plan.fileEdit d [] []).edits.Pairwise fun e f => e.span.Apart f.span) (toc nav : Text) :
    (∀ toc', text.edited (Plan.fileEdit d toc' nav).edits =
        text.edited (Plan.fileEdit d toc nav).edits) ∨
      ∀ nav', text.edited (Plan.fileEdit d toc nav').edits =
        text.edited (Plan.fileEdit d toc nav).edits := by
  have hstart {m : Marker} {content : Text} {locations : List Location} :
      (d.editFor m content locations).span.start ≤ text.rows.length + 1 := by
    have := (hd.inRange_of_plans (.inl ⟨locations, rfl⟩ : d.Plans m content _)).1.start_le
    have := text.lineCount_le
    omega
  rw [Plan.fileEdit_edits, List.pairwise_pair] at h
  have hpair := Edit.edited_pair_of_not_apart (e := d.editFor Marker.toc toc [.secondLevel, .bottom])
    (f := d.editFor Marker.nav nav [.top]) hstart hstart h
  simp only [Plan.fileEdit_edits]
  exact hpair.imp (fun h toc' => h (Marker.toc.wrap toc')) fun h nav' => h (Marker.nav.wrap nav')

/-- Every edit that may be planned for a block of a document counts lines of its text, one at least
if it takes any away. Carried out it finds all lines and breaks that it counts; what comes out is
the block at its place and every other line with its break. Carrying out the two edits of a document
counts only what is there and shows both blocks, whatever they hold, exactly if the edits are apart. If
they are not, one of the two blocks never shows. -/
theorem Document.plans_within {d : Document} {text : Text} (hd : d.Reads text) :
    (∀ m content e, d.Plans m content e →
      e.span.InRange text.lineCount ∧ (Draft.ofText text).Covers e ∧
        e.content = m.wrap content ∧ text.edited [e] = Edit.spliced [e] 1 text.rows) ∧
    ((∀ toc nav, (Draft.ofText text).CoversAll (Edit.fromLast (Plan.fileEdit d toc nav).edits) ∧
        ∀ e ∈ (Plan.fileEdit d toc nav).edits,
          e.content <:+: text.edited (Plan.fileEdit d toc nav).edits) ↔
      (Plan.fileEdit d [] []).edits.Pairwise fun e f => e.span.Apart f.span) ∧
    (¬ ((Plan.fileEdit d [] []).edits.Pairwise fun e f => e.span.Apart f.span) → ∀ toc nav,
      (∀ toc', text.edited (Plan.fileEdit d toc' nav).edits =
          text.edited (Plan.fileEdit d toc nav).edits) ∨
        ∀ nav', text.edited (Plan.fileEdit d toc nav').edits =
          text.edited (Plan.fileEdit d toc nav).edits) := by
  have hcount := text.lineCount_le
  have hpast : ∀ {m content e}, d.Plans m content e → e.span.past ≤ text.rows.length + 1 := by
    intro m content e he
    have := (hd.inRange_of_plans he).1.past_le
    omega
  refine ⟨?_, ⟨fun hshown => ?_, fun hapart toc nav => ?_⟩, hd.edited_of_not_apart⟩
  · intro m content e he
    obtain ⟨hrange, hcontent⟩ := hd.inRange_of_plans he
    exact ⟨hrange, (Draft.hasRows_ofText text).covers (hpast he), hcontent,
      Edit.edited_singleton (hpast he)⟩
  · -- a block longer than what comes out without it cannot be in it
    by_contra hapart
    obtain ⟨long, hlong⟩ : ∃ long : Text, ∀ m : Marker,
        ¬ m.wrap long <:+: text.edited (Plan.fileEdit d [] []).edits := by
      refine ⟨text.edited (Plan.fileEdit d [] []).edits ++ ['x'], fun m hinfix => ?_⟩
      have hle := (m.length_le_length_wrap _).trans hinfix.length_le
      rw [List.length_append, List.length_singleton] at hle
      omega
    rcases hd.edited_of_not_apart hapart [] [] with hsame | hsame
    · have htoc := (hshown long []).2 (d.editFor Marker.toc long [.secondLevel, .bottom])
        List.mem_cons_self
      rw [hsame] at htoc
      exact hlong Marker.toc htoc
    · have hnav := (hshown [] long).2 (d.editFor Marker.nav long [.top])
        (List.mem_cons_of_mem _ List.mem_cons_self)
      rw [hsame] at hnav
      exact hlong Marker.nav hnav
  · rw [Plan.fileEdit_edits, List.pairwise_pair] at hapart
    rw [Plan.fileEdit_edits]
    refine Edit.coversAll_fromLast ?_ ?_
    · intro e he
      rcases List.mem_pair.mp he with rfl | rfl
      · exact hpast (Or.inl ⟨_, rfl⟩)
      · exact hpast (Or.inl ⟨_, rfl⟩)
    · rw [List.pairwise_pair]
      exact hd.follows hapart

/-- An end line on the last line, which has no break, and the line that begins its block after a
lone carriage return. -/
theorem Document.plans_within_last_line :
    ∃ (d : Document) (e : Edit), d.Reads "x\r<!-- BEGIN TOC -->\r\ny\r<!-- END TOC -->".toList ∧
      d.Plans Marker.toc "new".toList e ∧ e.span.InRange 4 ∧
      Text.edited "x\r<!-- BEGIN TOC -->\r\ny\r<!-- END TOC -->".toList [e] =
        "x\r<!-- BEGIN TOC -->\nnew\n<!-- END TOC -->".toList ∧
      ((Plan.fileEdit d [] []).edits.Pairwise fun e f => e.span.Apart f.span) ∧
      (Draft.ofText "x\r<!-- BEGIN TOC -->\r\ny\r<!-- END TOC -->".toList).CoversAll
        (Edit.fromLast (Plan.fileEdit d "new".toList []).edits) := by
  let d := Load.ofText {} "a.md".toList "x\r<!-- BEGIN TOC -->\r\ny\r<!-- END TOC -->".toList
  let e := d.editFor Marker.toc "new".toList [.secondLevel, .bottom]
  have hd : d.Reads "x\r<!-- BEGIN TOC -->\r\ny\r<!-- END TOC -->".toList := Load.ofText_reads _ _ _
  have he : d.Plans Marker.toc "new".toList e := Or.inl ⟨_, rfl⟩
  have hapart : (Plan.fileEdit d [] []).edits.Pairwise fun e f => e.span.Apart f.span := by
    decide +kernel
  obtain ⟨hsingle, hboth, -⟩ := Document.plans_within hd
  obtain ⟨hrange, -, -, htext⟩ := hsingle _ _ e he
  have hcount : Text.lineCount "x\r<!-- BEGIN TOC -->\r\ny\r<!-- END TOC -->".toList = 4 := by
    decide +kernel
  rw [hcount] at hrange
  refine ⟨d, e, hd, he, hrange, htext.trans ?_, hapart, (hboth.mpr hapart "new".toList []).1⟩
  decide +kernel

/-- The navigation inside the table of contents: when that is written over, three lines are left of the
four that it counts, and the navigation is gone. -/
theorem Document.plans_not_within :
    ∃ d : Document, d.Reads ("<!-- BEGIN TOC -->\n<!-- BEGIN NAV -->\n<!-- END NAV -->\n" ++
        "<!-- END TOC -->").toList ∧
      ¬ (Draft.ofText ("<!-- BEGIN TOC -->\n<!-- BEGIN NAV -->\n<!-- END NAV -->\n" ++
        "<!-- END TOC -->").toList).CoversAll (Edit.fromLast (Plan.fileEdit d [] []).edits) ∧
      Text.edited ("<!-- BEGIN TOC -->\n<!-- BEGIN NAV -->\n<!-- END NAV -->\n" ++
        "<!-- END TOC -->").toList (Plan.fileEdit d [] []).edits =
          "<!-- BEGIN TOC -->\n<!-- END TOC -->".toList := by
  refine ⟨Load.ofText {} "a.md".toList _, Load.ofText_reads _ _ _, fun hcovers => ?_, by decide +kernel⟩
  have hlines := hcovers.2.1.lines
  revert hlines
  decide +kernel

end DocTree
