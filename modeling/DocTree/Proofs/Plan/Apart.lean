import DocTree.Proofs.Plan.Place

/-!
# Planned edits that reach into each other

The two edits of a document are planned without regard to each other. They are apart unless one
block stands inside the other: the navigation begins inside the table of contents, or the table of
contents, or the heading it goes before, stands inside the navigation. Such edits do not fit, and
lines outside both blocks are lost.
-/
namespace DocTree

namespace Document

/-- A line inside the block of a marker: behind the line it begins with, up to the line it ends
with. -/
def Inside (d : Document) (m : Marker) (i : Nat) : Prop :=
  ∃ first last, Marker.lastIndex? m.beginLine d.page = some first ∧
    Marker.lastIndex? m.endLine d.page = some last ∧ first < i ∧ i ≤ last

/-- The line that decides where the table of contents goes, if it does not go to the end. -/
def tocIndex? (d : Document) : Option Nat :=
  (Marker.lastIndex? Marker.toc.beginLine d.page).or (d.second?.map (·.index))

variable {d : Document} {text : Text}

/-- No two HTML blocks begin on one line. -/
theorem Reads.lastIndex?_inj (hd : d.Reads text) {a b : Text} {i : Nat}
    (ha : Marker.lastIndex? a d.page = some i) (hb : Marker.lastIndex? b d.page = some i) :
    a = b := by
  have hmema := Marker.mem_raws_of_lastIndex? ha
  have hmemb := Marker.mem_raws_of_lastIndex? hb
  rw [hd.page] at hmema hmemb
  rcases eq_or_of_pairwise (Markdown.Page.raws_rising text) hmema hmemb with heq | hlt | hlt
  · exact congrArg Markdown.Page.Raw.literal heq
  · exact absurd hlt (Nat.lt_irrefl _)
  · exact absurd hlt (Nat.lt_irrefl _)

/-- No heading begins on the line of an HTML block. -/
theorem Reads.second?_index_ne (hd : d.Reads text) {t : Markdown.Page.Title} {literal : Text}
    {i : Nat} (ht : d.second? = some t) (hi : Marker.lastIndex? literal d.page = some i) :
    t.index ≠ i := by
  have htitle := List.mem_of_find?_eq_some ht
  have hraw := Marker.mem_raws_of_lastIndex? hi
  rw [hd.page] at htitle hraw
  exact Markdown.Page.title_index_ne_raw_index htitle hraw

theorem beginLine_ne : Marker.toc.beginLine ≠ Marker.nav.beginLine := by decide

/-- A place and a block are apart unless the place lies inside the block. -/
theorem apart_before_iff (i first : Nat) (last? : Option Nat) :
    (Span.before i).Apart (blockSpan first last?) ↔
      ∀ last, last? = some last → ¬ (first < i ∧ i ≤ last) := by
  cases last? with
  | none =>
    simp [Span.Apart]
    omega
  | some last =>
    simp only [Span.Apart, Span.start_before, Span.past_before, start_blockSpan,
      past_blockSpan_some, Option.some.injEq, forall_eq']
    split <;> omega

/-- Two blocks are apart unless one of them begins inside the other. -/
theorem apart_blockSpan_iff {first other : Nat} (hne : first ≠ other) (last? end? : Option Nat) :
    (blockSpan first last?).Apart (blockSpan other end?) ↔
      (∀ last, last? = some last → ¬ (first < other ∧ other ≤ last)) ∧
        ∀ last, end? = some last → ¬ (other < first ∧ first ≤ last) := by
  cases last? with
  | none =>
    rw [show blockSpan first none = Span.before first from rfl, apart_before_iff]
    simp
  | some last =>
    cases end? with
    | none =>
      have hsymm : (blockSpan first (some last)).Apart (blockSpan other none) ↔
          (Span.before other).Apart (blockSpan first (some last)) :=
        ⟨Span.Apart.symm, Span.Apart.symm⟩
      rw [hsymm, apart_before_iff]
      simp
    | some stop =>
      simp only [Span.Apart, start_blockSpan, past_blockSpan_some, Option.some.injEq, forall_eq']
      split <;> split <;> omega

/-- The planned spans are apart unless one block stands inside the other. -/
theorem Reads.apart_iff (hd : d.Reads text) (toc nav : Text) :
    (d.editFor Marker.toc toc [.secondLevel, .bottom]).span.Apart
        (d.editFor Marker.nav nav [.top]).span ↔
      (∀ i, Marker.lastIndex? Marker.nav.beginLine d.page = some i → ¬ d.Inside Marker.toc i) ∧
        ∀ i, d.tocIndex? = some i → ¬ d.Inside Marker.nav i := by
  simp only [editFor, findMarker_eq, firstOf_toc, firstOf_nav, secondLevel?_eq, tocIndex?, Inside]
  cases hnb : Marker.lastIndex? Marker.nav.beginLine d.page with
  | none =>
    have htop : ∀ span : Span, span.Apart (Span.before 0) := fun span => Or.inr span.start_pos
    simp [htop]
  | some nb =>
    cases htb : Marker.lastIndex? Marker.toc.beginLine d.page with
    | some tb =>
      have hne : tb ≠ nb := by
        rintro rfl
        exact beginLine_ne (hd.lastIndex?_inj htb hnb)
      simp [apart_blockSpan_iff hne]
    | none =>
      cases h2 : d.second? with
      | some t =>
        simp [apart_before_iff]
      | none =>
        have hbottom : (Span.before d.lineCount).Apart
            (blockSpan nb (Marker.lastIndex? Marker.nav.endLine d.page)) := by
          rw [apart_before_iff]
          intro last hlast
          have := hd.lastIndex?_lt hlast
          omega
        simpa [bottom] using hbottom

end Document

namespace Plan

/-- The edits of a document, whether it stands for itself or for its directory, reach into each
other exactly if the navigation begins inside the table of contents, or the table of contents or
the heading it goes before stands inside the navigation. -/
theorem planned_apart_iff {s : Settings} {d : Document} {text : Text} {n : Nav} {f : FileEdit}
    (hd : d.Reads text)
    (hf : ofDocument s d n = .ok f ∨ ∃ entries, ofRoot s d entries n = .ok f) :
    (f.edits.Pairwise fun e g => e.span.Apart g.span) ↔
      (∀ i, Marker.lastIndex? Marker.nav.beginLine d.page = some i → ¬ d.Inside Marker.toc i) ∧
        ∀ i, d.tocIndex? = some i → ¬ d.Inside Marker.nav i := by
  obtain ⟨toc, nav, rfl⟩ : ∃ toc nav, f = fileEdit d toc nav := by
    rcases hf with hf | ⟨entries, hf⟩
    · obtain ⟨nav, -, rfl⟩ := ofDocument_eq_ok.mp hf
      exact ⟨_, nav, rfl⟩
    · obtain ⟨toc, -, nav, -, rfl⟩ := ofRoot_eq_ok.mp hf
      exact ⟨toc, nav, rfl⟩
  rw [fileEdit_edits, List.pairwise_pair]
  exact hd.apart_iff toc nav

/-- Two blocks one after the other. -/
theorem planned_apart_side_by_side :
    ∃ d f, d.Reads ("<!-- BEGIN NAV -->\n<!-- END NAV -->\n<!-- BEGIN TOC -->\n" ++
        "<!-- END TOC -->").toList ∧
      ofDocument {} d {} = .ok f ∧ f.edits.Pairwise fun e g => e.span.Apart g.span := by
  let d := Load.ofText {} "a.md".toList ("<!-- BEGIN NAV -->\n<!-- END NAV -->\n" ++
    "<!-- BEGIN TOC -->\n<!-- END TOC -->").toList
  have hd : d.Reads _ := Load.ofText_reads _ _ _
  have hf := (ofDocument_eq_ok (s := {}) (d := d) (n := {})).mpr ⟨[], rfl, rfl⟩
  have htb : Marker.lastIndex? Marker.toc.beginLine d.page = some 2 := by decide +kernel
  have hte : Marker.lastIndex? Marker.toc.endLine d.page = some 3 := by decide +kernel
  have hnb : Marker.lastIndex? Marker.nav.beginLine d.page = some 0 := by decide +kernel
  have hne : Marker.lastIndex? Marker.nav.endLine d.page = some 1 := by decide +kernel
  refine ⟨d, _, hd, hf, (planned_apart_iff hd (.inl hf)).mpr ⟨?_, ?_⟩⟩
  · simp [Document.Inside, htb, hte, hnb]
  · simp [Document.tocIndex?, Document.Inside, htb, hnb, hne]

/-- The navigation inside the table of contents. -/
theorem planned_not_apart :
    ∃ d f, d.Reads ("<!-- BEGIN TOC -->\n<!-- BEGIN NAV -->\n<!-- END NAV -->\n" ++
        "<!-- END TOC -->\nkeep\nthis\n").toList ∧
      ofDocument {} d {} = .ok f ∧ ¬ f.edits.Pairwise fun e g => e.span.Apart g.span := by
  refine ⟨Load.ofText {} "a.md".toList _, _, Load.ofText_reads _ _ _,
    ofDocument_eq_ok.mpr ⟨[], rfl, rfl⟩, ?_⟩
  decide +kernel

end Plan

end DocTree
