import DocTree.Proofs.Edit.Keep
import DocTree.Proofs.Plan.Apart

/-!
# Blocks that are found again

A block that is found with both its marker lines is written over; any other is put somewhere. If
what is found is as it is to be written, the edits of a document change nothing exactly if both
blocks are found. So to write a document again that is up to date leaves it as it is.
-/
namespace DocTree

namespace Document

def HasBlock (d : Document) (m : Marker) : Prop :=
  ∃ span, d.findMarker m = some span ∧ ¬ span.IsPlace

/-- Where the block of a marker is found, the text holds this. -/
def Holds (d : Document) (text : Text) (m : Marker) (block : Text) : Prop :=
  ∀ span, d.findMarker m = some span → ¬ span.IsPlace → text.slice span = block

variable {d : Document} {text : Text} {m : Marker}

theorem Holds.of_slice {span : Span} {block : Text} (hfind : d.findMarker m = some span)
    (hslice : text.slice span = block) : d.Holds text m block := by
  intro found hfound _
  rw [hfind] at hfound
  cases hfound
  exact hslice

/-- A block that is not there yet goes before some line of the text, or after the last. -/
theorem Reads.firstOf_eq_before (hd : d.Reads text) (locations : List Location) :
    ∃ i, i ≤ d.lineCount ∧ d.firstOf locations = Span.before i := by
  cases h : locations.findSome? d.find? with
  | none => exact ⟨d.lineCount, Nat.le_refl _, by simp [firstOf, h, bottom]⟩
  | some span =>
    obtain ⟨location, -, hfind⟩ := List.exists_of_findSome?_eq_some h
    rw [show d.firstOf locations = span by simp [firstOf, h]]
    cases location with
    | top => exact ⟨0, Nat.zero_le _, (Option.some.inj hfind).symm⟩
    | bottom => exact ⟨d.lineCount, Nat.le_refl _, (Option.some.inj hfind).symm⟩
    | secondLevel =>
      rw [Document.find?, secondLevel?_eq] at hfind
      obtain ⟨t, ht, rfl⟩ := Option.map_eq_some_iff.mp hfind
      exact ⟨t.index, Nat.le_of_lt (hd.second?_lt ht), rfl⟩

/-- An edit is over the block that is found, or else at a place. -/
theorem Reads.isPlace_editFor (hd : d.Reads text) (content : Text) (locations : List Location) :
    (d.editFor m content locations).span.IsPlace ↔ ¬ d.HasBlock m := by
  cases h : d.findMarker m with
  | none =>
    obtain ⟨i, -, hi⟩ := hd.firstOf_eq_before locations
    simp [editFor, HasBlock, h, hi, Span.IsPlace]
  | some span => simp [editFor, HasBlock, h]

/-- An edit takes nothing away if the block that is found is the one it writes. -/
theorem Reads.keeps_editFor (hd : d.Reads text) {content : Text}
    (h : d.Holds text m (m.wrap content)) (locations : List Location) :
    (d.editFor m content locations).Keeps text := by
  have hcount := text.lineCount_le
  rw [← hd.lineCount] at hcount
  cases hfind : d.findMarker m with
  | none =>
    obtain ⟨i, hle, hi⟩ := hd.firstOf_eq_before locations
    have hspan : (d.editFor m content locations).span = Span.before i := by
      simp [editFor, hfind, hi]
    constructor
    · rw [hspan, Span.past_before]
      omega
    · rw [hspan]
      exact absurd rfl
  | some span =>
    have hspan : (d.editFor m content locations).span = span := by simp [editFor, hfind]
    have hpast := hd.past_findMarker_le hfind
    constructor
    · rw [hspan]
      omega
    · rw [hspan]
      exact h span hfind

/-- The table of contents does not go to the line that the navigation begins on. -/
theorem Reads.toc_start_ne (hd : d.Reads text) {nb : Nat} (toc : Text)
    (hnb : Marker.lastIndex? Marker.nav.beginLine d.page = some nb) :
    (d.editFor Marker.toc toc [.secondLevel, .bottom]).span.start ≠ nb + 1 := by
  have hlt := hd.lastIndex?_lt hnb
  simp only [editFor, findMarker_eq, firstOf_toc, secondLevel?_eq]
  cases htb : Marker.lastIndex? Marker.toc.beginLine d.page with
  | some tb =>
    have hne : tb ≠ nb := by
      rintro rfl
      exact beginLine_ne (hd.lastIndex?_inj htb hnb)
    simpa using hne
  | none =>
    cases h2 : d.second? with
    | some t => simpa using hd.second?_index_ne h2 hnb
    | none =>
      simp [bottom]
      omega

/-- Planned edits that are apart can be carried out one after the other. -/
theorem Reads.follows (hd : d.Reads text) {toc nav : Text}
    (h : (d.editFor Marker.toc toc [.secondLevel, .bottom]).span.Apart
      (d.editFor Marker.nav nav [.top]).span) :
    (d.editFor Marker.toc toc [.secondLevel, .bottom]).Follows
      (d.editFor Marker.nav nav [.top]) := by
  refine ⟨h, ?_⟩
  intro _ hstart
  cases hnb : Marker.lastIndex? Marker.nav.beginLine d.page with
  | none => simp [editFor, findMarker_eq, hnb, firstOf_nav, Span.IsPlace]
  | some nb =>
    have hnav : (d.editFor Marker.nav nav [.top]).span.start = nb + 1 := by
      simp [editFor, findMarker_eq, hnb]
    exact absurd (hstart.symm.trans hnav) (hd.toc_start_ne toc hnb)

end Document

/-- Where what is found is as it is to be written, and the edits are apart, they change nothing
exactly if both blocks are found. -/
theorem Plan.edited_eq_iff {d : Document} {text toc nav : Text} (hd : d.Reads text)
    (htoc : d.Holds text Marker.toc (Marker.toc.wrap toc))
    (hnav : d.Holds text Marker.nav (Marker.nav.wrap nav))
    (hapart : (fileEdit d toc nav).edits.Pairwise fun e f => e.span.Apart f.span) :
    text.edited (fileEdit d toc nav).edits = text ↔
      d.HasBlock Marker.toc ∧ d.HasBlock Marker.nav := by
  rw [fileEdit_edits, List.pairwise_pair] at hapart
  rw [fileEdit_edits, Edit.edited_eq_iff]
  · simp [hd.isPlace_editFor]
  · intro e he
    rcases List.mem_pair.mp he with rfl | rfl
    · exact hd.keeps_editFor htoc _
    · exact hd.keeps_editFor hnav _
  · rw [List.pairwise_pair]
    exact hd.follows hapart

/-- Edits over complete blocks that are side by side change nothing if the text holds in each of them
what they write there. -/
theorem Plan.edited_of_slices {d : Document} {text toc nav : Text} (hd : d.Reads text) {a b : Span}
    (ha : d.findMarker Marker.toc = some a) (hb : d.findMarker Marker.nav = some b)
    (hblocks : ¬ a.IsPlace ∧ ¬ b.IsPlace) (hapart : a.Apart b)
    (htoc : text.slice a = Marker.toc.wrap toc) (hnav : text.slice b = Marker.nav.wrap nav) :
    text.edited (fileEdit d toc nav).edits = text := by
  have hedits : (fileEdit d toc nav).edits.Pairwise fun e f => e.span.Apart f.span := by
    rw [fileEdit_edits, List.pairwise_pair]
    simpa [Document.editFor, ha, hb] using hapart
  exact (edited_eq_iff hd (.of_slice ha htoc) (.of_slice hb hnav) hedits).mpr
    ⟨⟨a, ha, hblocks.1⟩, ⟨b, hb, hblocks.2⟩⟩

/-- A document that is up to date stays as it is to the last break. Where both blocks of a text are
found with both their marker lines, side by side in either order, and hold what is to be written
there, then the edits of the document change nothing, whether it stands for itself or for its
directory. -/
theorem Plan.current_edited {s : Settings} {d : Document} {text : Text} {n : Nav} (hd : d.Reads text)
    {a b : Span} (ha : d.findMarker Marker.toc = some a) (hb : d.findMarker Marker.nav = some b)
    (hblocks : ¬ a.IsPlace ∧ ¬ b.IsPlace) (hapart : a.Apart b) :
    (∀ nav, Render.nav s d.filename n = .ok nav →
      text.slice a = Marker.toc.wrap (Render.sectionToc d.sections s.tocDepth) →
      text.slice b = Marker.nav.wrap nav →
      ∃ f, ofDocument s d n = .ok f ∧ text.edited f.edits = text) ∧
    ∀ entries toc nav, Render.fileToc s d.filename entries = .ok toc →
      Render.nav s d.filename n = .ok nav → text.slice a = Marker.toc.wrap toc →
      text.slice b = Marker.nav.wrap nav →
      ∃ f, ofRoot s d entries n = .ok f ∧ text.edited f.edits = text := by
  constructor
  · intro nav hnav htocHeld hnavHeld
    exact ⟨_, ofDocument_eq_ok.mpr ⟨nav, hnav, rfl⟩,
      edited_of_slices hd ha hb hblocks hapart htocHeld hnavHeld⟩
  · intro entries toc nav htoc hnav htocHeld hnavHeld
    exact ⟨_, ofRoot_eq_ok.mpr ⟨toc, htoc, nav, hnav, rfl⟩,
      edited_of_slices hd ha hb hblocks hapart htocHeld hnavHeld⟩

/-- The table of contents between other breaks, and right behind it the navigation, whose end line is
the last one and has no break. -/
theorem Plan.current_edited_last_line :
    let text : Text := ("## h\r<!-- BEGIN TOC -->\n---\nTable of Contents\n\n- [h](#h)\n---\n" ++
      "<!-- END TOC -->\r\n<!-- BEGIN NAV -->\n|  | ↑ Up |  |\n|:--|:-:|--:|\n" ++
      "|  | [R](README.md) |  |\n<!-- END NAV -->").toList
    let up : Entry := .document { filename := "README.md".toList, title := "R".toList }
    ∃ d f, d.Reads text ∧ d.HasBlock Marker.toc ∧ d.HasBlock Marker.nav ∧
      ofDocument {} d { up := some up } = .ok f ∧ text.edited f.edits = text := by
  -- The strings are spelled out once, and not in each of the facts about the document.
  simp -zeta only [String.toList_append, String.reduceToList]
  intro text up
  let d := Load.ofText {} "a.md".toList text
  let nav : Text := "|  | ↑ Up |  |\n|:--|:-:|--:|\n|  | [R](README.md) |  |".toList
  have hd : d.Reads text := Load.ofText_reads _ _ _
  have ha : d.findMarker Marker.toc = some { start := 2, stop := some 9 } := by decide +kernel
  have hb : d.findMarker Marker.nav = some { start := 9, stop := some 14 } := by decide +kernel
  have hnav : Render.nav {} d.filename { up := some up } = .ok nav := by decide +kernel
  obtain ⟨f, hf, htext⟩ := (current_edited hd ha hb (by decide) (by decide)).1 nav hnav
    (by decide +kernel) (by decide +kernel)
  exact ⟨d, f, hd, ⟨_, ha, by decide⟩, ⟨_, hb, by decide⟩, hf, htext⟩

end DocTree
