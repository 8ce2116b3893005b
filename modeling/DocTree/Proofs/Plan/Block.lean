import DocTree.Proofs.Plan.Apart

/-!
# The marker lines of a block

A block goes from the last line that begins one of its kind to the last line that ends one. So among
the marker lines in it the first begins the block, and all others end one. There may be more than one
of these: an end line that stands behind a complete block makes the block reach to it, and what is
between the two is then part of the block.
-/
namespace DocTree

open Markdown.Page (raws Raw)

namespace Marker

def isLine (m : Marker) (x : Raw) : Bool :=
  x.literal == m.beginLine || x.literal == m.endLine

theorem isLine_iff {m : Marker} {x : Raw} :
    m.isLine x = true ↔ x.literal = m.beginLine ∨ x.literal = m.endLine := by
  simp [isLine]

theorem beginLine_ne_endLine (m : Marker) : m.beginLine ≠ m.endLine := by
  intro h
  have hsixth : some 'B' = some 'E' := congrArg (fun line => (line.drop 5).head?) h
  exact absurd hsixth (by decide)

/-- No HTML block with a literal stands behind the last line with it. -/
theorem le_lastIndex? {page : Markdown.Page} {literal : Text} {i j : Nat}
    (hrising : (raws page).Pairwise fun x y => x.index < y.index)
    (h : lastIndex? literal page = some i) (hj : ⟨j, literal⟩ ∈ raws page) : j ≤ i := by
  obtain ⟨⟨i, written⟩, hfind, rfl⟩ := Option.map_eq_some_iff.mp h
  obtain ⟨-, behind, before, hsplit, hbehind⟩ := List.find?_eq_some_iff_append.mp hfind
  rw [List.reverse_eq_iff, List.reverse_append, List.reverse_cons, List.append_assoc,
    List.singleton_append] at hsplit
  rw [hsplit] at hrising hj
  rcases List.mem_append.mp hj with hj | hj
  · exact Nat.le_of_lt ((List.pairwise_append.mp hrising).2.2 _ hj _ List.mem_cons_self)
  · rcases List.mem_cons.mp hj with hj | hj
    · exact Nat.le_of_eq (congrArg Raw.index hj)
    · have hnot := hbehind _ (List.mem_reverse.mp hj)
      simp at hnot

end Marker

namespace Document

variable {d : Document} {text : Text} {m : Marker} {span : Span} {past : Nat}

def linesIn (d : Document) (m : Marker) (span : Span) : List Raw :=
  (raws d.page).filter fun x => m.isLine x && (span.start ≤ x.index + 1 && x.index + 1 < span.past)

theorem mem_linesIn {x : Raw} :
    x ∈ d.linesIn m span ↔ x ∈ raws d.page ∧ (x.literal = m.beginLine ∨ x.literal = m.endLine) ∧
      span.start ≤ x.index + 1 ∧ x.index + 1 < span.past := by
  simp only [linesIn, List.mem_filter, Bool.and_eq_true, Marker.isLine_iff, decide_eq_true_eq]

theorem Reads.raws_rising (hd : d.Reads text) :
    (raws d.page).Pairwise fun x y => x.index < y.index := by
  rw [hd.page]
  exact Markdown.Page.raws_rising text

theorem Reads.linesIn_rising (hd : d.Reads text) (m : Marker) (span : Span) :
    (d.linesIn m span).Pairwise fun x y => x.index < y.index :=
  hd.raws_rising.filter _

/-- A block that is to be replaced goes from the last begin line to the last end line. -/
theorem lastIndex?_of_stop (h : d.findMarker m = some span) (hstop : span.stop = some past) :
    ∃ first last, Marker.lastIndex? m.beginLine d.page = some first ∧
      Marker.lastIndex? m.endLine d.page = some last ∧ first ≤ last ∧
      span.start = first + 1 ∧ past = last + 2 := by
  rw [findMarker_eq] at h
  obtain ⟨first, hfirst, rfl⟩ := Option.map_eq_some_iff.mp h
  cases hlast : Marker.lastIndex? m.endLine d.page with
  | none =>
    rw [hlast] at hstop
    cases hstop
  | some last =>
    rw [hlast, blockSpan, Span.between] at hstop
    split at hstop
    · rename_i hle
      exact ⟨first, last, hfirst, rfl, Nat.le_of_lt_succ hle, start_blockSpan _ _,
        (Option.some.inj hstop).symm⟩
    · cases hstop

/-- The marker lines on the lines from the last begin line of the text to an end line. -/
theorem Reads.linesIn_eq (hd : d.Reads text) {first last : Nat} (hlt : first < last)
    (hstart : span.start = first + 1) (hpast : span.past = last + 2)
    (hfirst : ⟨first, m.beginLine⟩ ∈ raws d.page) (hlast : ⟨last, m.endLine⟩ ∈ raws d.page)
    (hbegin : ∀ i, ⟨i, m.beginLine⟩ ∈ raws d.page → i ≤ first) :
    ∃ inner,
      d.linesIn m span = ⟨first, m.beginLine⟩ :: (inner ++ [last]).map (⟨·, m.endLine⟩) := by
  have hmem : ∀ x, x ∈ d.linesIn m span ↔ x ∈ raws d.page ∧
      (x.literal = m.beginLine ∨ x.literal = m.endLine) ∧ first ≤ x.index ∧ x.index ≤ last := by
    intro x
    rw [mem_linesIn, hstart, hpast]
    refine and_congr_right fun _ => and_congr_right fun _ => ?_
    omega
  have hlines := hd.linesIn_rising m span
  obtain ⟨inner, hinner⟩ := exists_inner_of_rising hlines
    ((hmem ⟨first, m.beginLine⟩).mpr ⟨hfirst, .inl rfl, Nat.le_refl _, Nat.le_of_lt hlt⟩)
    ((hmem ⟨last, m.endLine⟩).mpr ⟨hlast, .inr rfl, Nat.le_of_lt hlt, Nat.le_refl _⟩)
    hlt (fun x hx => ((hmem x).mp hx).2.2)
  -- no line behind the first begins a block, so those in between end one
  have hends : ∀ x ∈ inner, x = ⟨x.index, m.endLine⟩ := by
    rintro ⟨i, literal⟩ hx
    have hxlines : ⟨i, literal⟩ ∈ d.linesIn m span := by simp [hinner, hx]
    rw [hinner] at hlines
    have hbehind := List.rel_of_pairwise_cons hlines (List.mem_append_left _ hx)
    obtain ⟨hraw, rfl | rfl, -⟩ := (hmem _).mp hxlines
    · exact absurd (hbegin i hraw) (Nat.not_le.mpr hbehind)
    · rfl
  have hindices : inner = (inner.map Raw.index).map (⟨·, m.endLine⟩) := by
    rw [List.map_map]
    exact ((List.map_congr_left fun x hx => (hends x hx).symm).trans (List.map_id inner)).symm
  rw [hindices] at hinner
  exact ⟨inner.map Raw.index, by rw [hinner, List.map_append, List.map_singleton]⟩

/-- There is no end line between exactly if the last is the only one behind the begin line. -/
theorem Reads.inner_eq_nil_iff (hd : d.Reads text) {first last : Nat} {inner : List Nat}
    (hstart : span.start = first + 1) (hpast : span.past = last + 2)
    (hinner : d.linesIn m span = ⟨first, m.beginLine⟩ :: (inner ++ [last]).map (⟨·, m.endLine⟩))
    (hend : ∀ i, ⟨i, m.endLine⟩ ∈ raws d.page → i ≤ last) :
    inner = [] ↔ ∀ i, ⟨i, m.endLine⟩ ∈ raws d.page → first < i → i = last := by
  constructor
  · rintro rfl i hi hbehind
    have hle := hend i hi
    have hlines : ⟨i, m.endLine⟩ ∈ d.linesIn m span :=
      mem_linesIn.mpr ⟨hi, .inr rfl, by simp; omega, by simp; omega⟩
    simpa [hinner, m.beginLine_ne_endLine.symm] using hlines
  · intro honly
    have hrising := hd.linesIn_rising m span
    rw [hinner] at hrising
    cases inner with
    | nil => rfl
    | cons i inner =>
      have hraw : ⟨i, m.endLine⟩ ∈ raws d.page :=
        (mem_linesIn.mp (hinner ▸ List.mem_cons_of_mem _ List.mem_cons_self)).1
      have hlast : (⟨last, m.endLine⟩ : Raw) ∈ (inner ++ [last]).map (⟨·, m.endLine⟩) :=
        List.mem_map_of_mem (by simp)
      have hbehind : first < i := List.rel_of_pairwise_cons hrising List.mem_cons_self
      have hbefore : i < last := List.rel_of_pairwise_cons hrising.tail hlast
      exact absurd (honly i hraw hbehind) (Nat.ne_of_lt hbefore)

/-- Among the marker lines on the lines of a block that is to be replaced the first begins it, and
those behind end one. The block begins on the first and ends with the last. No line of the text that
begins such a block stands behind the first, and none that ends one behind the last. There are two
exactly if the last is the only end line behind the first. -/
theorem linesIn_findMarker (hd : d.Reads text) (h : d.findMarker m = some span)
    (hstop : span.stop = some past) :
    ∃ first inner last,
      d.linesIn m span = ⟨first, m.beginLine⟩ :: (inner ++ [last]).map (⟨·, m.endLine⟩) ∧
      span.start = first + 1 ∧ past = last + 2 ∧
      (∀ i, ⟨i, m.beginLine⟩ ∈ raws d.page → i ≤ first) ∧
      (∀ i, ⟨i, m.endLine⟩ ∈ raws d.page → i ≤ last) ∧
      ((d.linesIn m span).length = 2 ↔
        ∀ i, ⟨i, m.endLine⟩ ∈ raws d.page → first < i → i = last) := by
  obtain ⟨first, last, hfirst, hlast, hle, hstart, rfl⟩ := lastIndex?_of_stop h hstop
  have hne : first ≠ last := by
    rintro rfl
    exact m.beginLine_ne_endLine (hd.lastIndex?_inj hfirst hlast)
  have hlt : first < last := Nat.lt_of_le_of_ne hle hne
  have hpast : span.past = last + 2 := by rw [Span.past, hstop, Option.getD_some]
  have hbegin : ∀ i, ⟨i, m.beginLine⟩ ∈ raws d.page → i ≤ first :=
    fun i => Marker.le_lastIndex? hd.raws_rising hfirst
  have hend : ∀ i, ⟨i, m.endLine⟩ ∈ raws d.page → i ≤ last :=
    fun i => Marker.le_lastIndex? hd.raws_rising hlast
  obtain ⟨inner, hinner⟩ := hd.linesIn_eq hlt hstart hpast (Marker.mem_raws_of_lastIndex? hfirst)
    (Marker.mem_raws_of_lastIndex? hlast) hbegin
  have htwo : (d.linesIn m span).length = 2 ↔ inner = [] := by simp [hinner]
  exact ⟨first, inner, last, hinner, hstart, rfl, hbegin, hend,
    htwo.trans (hd.inner_eq_nil_iff hstart hpast hinner hend)⟩

/-- A block with a heading behind it. -/
theorem linesIn_findMarker_single :
    ∃ (d : Document) (span : Span),
      d.Reads "<!-- BEGIN TOC -->\nold\n<!-- END TOC -->\n## Next\n".toList ∧
      d.findMarker Marker.toc = some span ∧ span.stop = some 4 ∧
      (d.linesIn Marker.toc span).length = 2 := by
  let d := Load.ofText {} "a.md".toList
    "<!-- BEGIN TOC -->\nold\n<!-- END TOC -->\n## Next\n".toList
  have hd : d.Reads _ := Load.ofText_reads _ _ _
  have hraws : raws d.page = [⟨0, Marker.toc.beginLine⟩, ⟨2, Marker.toc.endLine⟩] := by
    decide +kernel
  have hfind : d.findMarker Marker.toc = some (Span.between 0 3) := by decide +kernel
  obtain ⟨first, inner, last, -, -, hpast, -, -, htwo⟩ := linesIn_findMarker hd hfind rfl
  refine ⟨d, _, hd, hfind, rfl, htwo.mpr ?_⟩
  intro i hi _
  simp [hraws, Marker.toc.beginLine_ne_endLine.symm] at hi
  omega

/-- An end line behind a complete block. The line between is taken away with the block. -/
theorem linesIn_findMarker_second_end :
    ∃ (d : Document) (span : Span),
      d.Reads "<!-- BEGIN TOC -->\n<!-- END TOC -->\nkeep\n<!-- END TOC -->\n".toList ∧
      d.findMarker Marker.toc = some span ∧ span.start = 1 ∧ span.stop = some 5 ∧
      d.linesIn Marker.toc span =
        [⟨0, Marker.toc.beginLine⟩, ⟨1, Marker.toc.endLine⟩, ⟨3, Marker.toc.endLine⟩] :=
  ⟨Load.ofText {} "a.md".toList _, Span.between 0 4, Load.ofText_reads _ _ _, by decide +kernel⟩

end Document

end DocTree
