import DocTree.Load
import DocTree.Plan
import DocTree.Proofs.Edit.Order
import DocTree.Proofs.Markdown.Order
import DocTree.Proofs.Outcome
import DocTree.Proofs.Text.Rows

/-!
# Where blocks go

The span of a planned edit in terms of lines: the last marker lines of its kind, or else the first
place that serves. Every such line is a line of the text that the document was read from.
-/
namespace DocTree

namespace Span

@[simp] theorem start_before (i : Nat) : (before i).start = i + 1 := rfl

@[simp] theorem past_before (i : Nat) : (before i).past = i + 1 := rfl

@[simp] theorem start_between (i past : Nat) : (between i past).start = i + 1 := by
  unfold between
  split <;> rfl

@[simp] theorem past_between (i past : Nat) :
    (between i past).past = if i < past then past + 1 else i + 1 := by
  unfold between
  split <;> rfl

end Span

/-- On the last line with a literal stands an HTML block with it. -/
theorem Marker.mem_raws_of_lastIndex? {page : Markdown.Page} {literal : Text} {i : Nat}
    (h : lastIndex? literal page = some i) : ⟨i, literal⟩ ∈ Markdown.Page.raws page := by
  obtain ⟨⟨i, written⟩, hfind, rfl⟩ := Option.map_eq_some_iff.mp h
  obtain rfl : written = literal := by simpa using List.find?_some hfind
  exact List.mem_reverse.mp (List.mem_of_find?_eq_some hfind)

namespace Document

/-- The document was read from a text, as far as places in it go. -/
structure Reads (d : Document) (text : Text) : Prop where
  page : d.page = Markdown.Page.ofText text
  lineCount : d.lineCount = text.lineCount

variable {d : Document} {text : Text}

theorem Reads.lastIndex?_lt (hd : d.Reads text) {literal : Text} {i : Nat}
    (h : Marker.lastIndex? literal d.page = some i) : i < d.lineCount := by
  have hmem := Marker.mem_raws_of_lastIndex? h
  rw [hd.page] at hmem
  rw [hd.lineCount]
  exact Markdown.Page.raw_index_lt hmem

def second? (d : Document) : Option Markdown.Page.Title :=
  (Markdown.Page.titles d.page).find? (·.level == 2)

theorem Reads.second?_lt (hd : d.Reads text) {t : Markdown.Page.Title} (h : d.second? = some t) :
    t.index < d.lineCount := by
  have hmem := List.mem_of_find?_eq_some h
  rw [hd.page] at hmem
  rw [hd.lineCount]
  exact Markdown.Page.title_index_lt hmem

theorem secondLevel?_eq (d : Document) :
    d.secondLevel? = d.second?.map fun t => Span.before t.index := rfl

theorem firstOf_toc (d : Document) :
    d.firstOf [.secondLevel, .bottom] = (d.secondLevel?).getD d.bottom := by
  cases h : d.secondLevel? <;> simp [firstOf, List.findSome?_cons, Document.find?, h]

theorem firstOf_nav (d : Document) : d.firstOf [.top] = Span.before 0 := rfl

def blockSpan (first : Nat) (last? : Option Nat) : Span :=
  match last? with
  | some last => Span.between first (last + 1)
  | none => Span.before first

@[simp] theorem start_blockSpan (first : Nat) (last? : Option Nat) :
    (blockSpan first last?).start = first + 1 := by
  cases last? <;> simp [blockSpan]

@[simp] theorem past_blockSpan_none (first : Nat) : (blockSpan first none).past = first + 1 := rfl

@[simp] theorem past_blockSpan_some (first last : Nat) :
    (blockSpan first (some last)).past = if first ≤ last then last + 2 else first + 1 := by
  simp only [blockSpan, Span.past_between, Nat.lt_succ_iff]

theorem findMarker_eq (d : Document) (m : Marker) :
    d.findMarker m = (Marker.lastIndex? m.beginLine d.page).map
      (blockSpan · (Marker.lastIndex? m.endLine d.page)) := rfl

/-- A block that is found lies in the text. -/
theorem Reads.past_findMarker_le (hd : d.Reads text) {m : Marker} {span : Span}
    (h : d.findMarker m = some span) : span.past ≤ d.lineCount + 1 := by
  rw [findMarker_eq] at h
  obtain ⟨first, hfirst, rfl⟩ := Option.map_eq_some_iff.mp h
  have hlt := hd.lastIndex?_lt hfirst
  cases hlast : Marker.lastIndex? m.endLine d.page with
  | none =>
    rw [past_blockSpan_none]
    omega
  | some last =>
    have := hd.lastIndex?_lt hlast
    rw [past_blockSpan_some]
    split <;> omega

end Document

theorem Load.ofText_reads (s : Settings) (filename text : Text) :
    (Load.ofText s filename text).Reads text :=
  ⟨rfl, rfl⟩

namespace Plan

theorem fileEdit_edits (d : Document) (toc nav : Text) :
    (fileEdit d toc nav).edits =
      [d.editFor Marker.toc toc [.secondLevel, .bottom], d.editFor Marker.nav nav [.top]] := rfl

theorem ofDocument_eq_ok {s : Settings} {d : Document} {n : Nav} {f : FileEdit} :
    ofDocument s d n = .ok f ↔ ∃ nav, Render.nav s d.filename n = .ok nav ∧
      fileEdit d (Render.sectionToc d.sections s.tocDepth) nav = f := by
  simp only [ofDocument, bind_eq_ok, pure_eq_ok]

theorem ofRoot_eq_ok {s : Settings} {d : Document} {entries : List Entry} {n : Nav}
    {f : FileEdit} :
    ofRoot s d entries n = .ok f ↔ ∃ toc, Render.fileToc s d.filename entries = .ok toc ∧
      ∃ nav, Render.nav s d.filename n = .ok nav ∧ fileEdit d toc nav = f := by
  simp only [ofRoot, bind_eq_ok, pure_eq_ok]

end Plan

end DocTree
