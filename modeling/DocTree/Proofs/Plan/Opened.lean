import DocTree.Proofs.Edit.Keep
import DocTree.Proofs.Plan.FirstRun
import DocTree.Proofs.Plan.Written

/-!
# A text with its first blocks, piece by piece

What the first run leaves of a document is the navigation, the text up to the place of the table of
contents, the table of contents and the rest of the text. To a reader each piece ends its last line,
and each block has the lines of its span.
-/
namespace DocTree

namespace Plan

/-- What stands in front of the table of contents that the first run writes, with a break behind
it. -/
def before (d : Document) (text : Text) : Text :=
  match d.second? with
  | some t => Row.join (text.rows.take t.index)
  | none => text.ended

def after (d : Document) (text : Text) : Text :=
  match d.second? with
  | some t => Row.join (text.rows.drop t.index)
  | none => []

variable {d : Document} {text : Text}

theorem before_some {t : Markdown.Page.Title} (h : d.second? = some t) :
    before d text = Row.join (text.rows.take t.index) := by
  simp only [before, h]

theorem before_none (h : d.second? = none) : before d text = text.ended := by
  simp only [before, h]

theorem after_some {t : Markdown.Page.Title} (h : d.second? = some t) :
    after d text = Row.join (text.rows.drop t.index) := by
  simp only [after, h]

theorem after_none (h : d.second? = none) : after d text = [] := by
  simp only [after, h]

theorem second?_index_lt (hd : d.Reads text) {t : Markdown.Page.Title} (h : d.second? = some t) :
    t.index < text.rows.length := by
  have hlt := hd.second?_lt h
  have hle := text.lineCount_le
  rw [hd.lineCount] at hlt
  omega

theorem endsLine_before (hd : d.Reads text) : (before d text).EndsLine := by
  cases h : d.second? with
  | some t =>
    rw [before_some h]
    exact Text.endsLine_join_take (second?_index_lt hd h)
  | none =>
    rw [before_none h]
    exact text.endsLine_ended

/-- The table of contents goes in front of the line of the heading. -/
theorem lineCount_before (hd : d.Reads text) {t : Markdown.Page.Title} (h : d.second? = some t) :
    (before d text).lineCount = t.index := by
  have hlt := second?_index_lt hd h
  rw [before_some h, Text.lineCount_eq, if_pos (Text.endsLine_join_take hlt),
    Text.rows_join_take hlt, List.length_append, List.length_take, List.length_singleton]
  omega

/-- A heading of the second level cuts the text in two. -/
theorem before_append_after {t : Markdown.Page.Title} (h : d.second? = some t) (text : Text) :
    before d text ++ after d text = text := by
  rw [before_some h, after_some h]
  exact join_take_drop text t.index

theorem meetsAt_before_after (hd : d.Reads text) {t : Markdown.Page.Title}
    (h : d.second? = some t) : Text.MeetsAt (before d text) (after d text) := by
  rw [before_some h, after_some h]
  exact Text.meetsAt_join_take_drop (second?_index_lt hd h)

/-- The pieces of a text with both blocks put into it. -/
theorem exists_opened (d : Document) (text nav toc : Text) : ∃ rest,
    opened d text nav toc = nav ++ '\n' :: (before d text ++ (toc ++ rest)) ∧
      (rest = [] ∧ after d text = [] ∨ rest = '\n' :: after d text) := by
  cases h : d.second? with
  | some t =>
    refine ⟨'\n' :: after d text, ?_, Or.inr rfl⟩
    rw [before_some h, after_some h]
    simp [opened, h]
  | none =>
    rw [before_none h, after_none h]
    by_cases hends : text.EndsLine
    · exact ⟨['\n'], by simp [opened, h, Text.ended, hends], Or.inr rfl⟩
    · exact ⟨[], by simp [opened, h, Text.ended, hends], Or.inl ⟨rfl, rfl⟩⟩

/-- To a reader each block ends its last line. -/
theorem ofText_opened (d : Document) (text nav : Text) {toc : Text}
    (htoc : toc.getLast? = some '>') :
    Markdown.Line.ofText (opened d text nav toc) = Markdown.Line.ofText
      ((nav ++ ['\n']) ++ (before d text ++ ((toc ++ ['\n']) ++ after d text))) := by
  obtain ⟨rest, hopened, ⟨rfl, hafter⟩ | rfl⟩ := exists_opened d text nav toc
  · have hlast : (opened d text nav toc).getLast? = some '>' := by
      have hne : toc ≠ [] := by
        rintro rfl
        cases htoc
      rw [hopened, List.append_nil, List.getLast?_append_of_ne_nil _ (by simp),
        ← List.singleton_append, List.getLast?_append_of_ne_nil _ (by simp [hne]),
        List.getLast?_append_of_ne_nil _ hne, htoc]
    rw [← Markdown.Line.ofText_break hlast (by decide) (by decide), hopened, hafter]
    simp
  · rw [hopened]
    simp

end Plan

theorem Marker.getLast?_wrap (m : Marker) (content : Text) :
    (m.wrap content).getLast? = some '>' := by
  unfold Marker.wrap Marker.endLine
  rw [← List.append_assoc, List.getLast?_append_of_ne_nil]
  · rfl
  · simp

theorem Marker.not_endsLine_wrap (m : Marker) (content : Text) : ¬ (m.wrap content).EndsLine :=
  fun h => by simpa using h _ (m.getLast?_wrap content)

theorem Marker.head?_wrap (m : Marker) (content : Text) : (m.wrap content).head? = some '<' := rfl

def Span.ofBlock (above block : Text) : Span :=
  Span.between above.lineCount (above.lineCount + block.lineCount)

/-- A block behind some text takes its lines, with or without a break behind it. -/
theorem Text.slice_ofBlock {above block rest : Text} (habove : above.EndsLine)
    (hhead : block.head? = some '<') (hlast : block.getLast? = some '>')
    (hrest : rest = [] ∨ ∃ more, rest = '\n' :: more) :
    (above ++ (block ++ rest)).slice (Span.ofBlock above block) = block := by
  obtain ⟨head, line, hrows, hline⟩ := block.exists_last_row
  have hends : ¬ block.EndsLine := fun h => by simpa using h _ hlast
  have hmeets : MeetsAt above (block ++ rest) := by
    refine meetsAt_of_head?_ne ?_ above
    rw [List.head?_append, hhead, Option.some_or]
    decide
  have hcount : block.lineCount = head.length + 1 := by
    rw [lineCount_eq, if_neg hends, hrows]
    simp
  have hlength : above.rows.dropLast.length = above.lineCount := by
    rw [lineCount_eq, if_pos habove, List.length_dropLast]
  obtain ⟨ending, more, hblock⟩ : ∃ ending more,
      rows (block ++ rest) = head ++ ⟨line, ending⟩ :: more := by
    rcases hrest with rfl | ⟨more, rfl⟩
    · exact ⟨[], [], by rw [List.append_nil, hrows]⟩
    · refine ⟨['\n'], rows more, ?_⟩
      have hbreak := rows_append_break hends hrows
      have hsplit : block ++ '\n' :: more = (block ++ ['\n']) ++ more := by simp
      rw [hsplit, rows_append (by simp [EndsLine]) (by simp [MeetsAt]), hbreak]
      simp
  have hjoin := block.join_rows
  rw [hrows] at hjoin
  have htake : (head ++ ⟨line, ending⟩ :: more).take (head.length + 1) =
      head ++ [⟨line, ending⟩] := by
    simp [List.take_append, List.take_of_length_le]
  rw [Text.slice, Span.ofBlock, rows_append habove hmeets, hblock, Span.start_between,
    Span.past_between, hcount,
    if_pos (by omega), Nat.add_sub_cancel, Nat.add_sub_cancel, ← hlength,
    List.take_length_add_append, htake, List.drop_left, Row.block_append_singleton]
  simpa using hjoin

namespace Plan

open Markdown

/-- The blocks of a navigation and of a table of contents with their lines, and text around the
second. -/
def assembled (navLines : List Text) (above : Text) (tocLines : List Text) (below : Text) : Text :=
  Framed.text Marker.nav.beginLine Marker.nav.endLine navLines ++
    (above ++ (Framed.text Marker.toc.beginLine Marker.toc.endLine tocLines ++ below))

/-- What the first run leaves is read as the text put together from lines. -/
theorem blocks_edited {d : Document} {text toc nav : Text} {navLines tocLines : List Text}
    (hd : d.Reads text) (ht : d.findMarker Marker.toc = none) (hn : d.findMarker Marker.nav = none)
    (hnav : Marker.nav.wrap nav ++ ['\n'] =
      Framed.text Marker.nav.beginLine Marker.nav.endLine navLines)
    (htoc : Marker.toc.wrap toc ++ ['\n'] =
      Framed.text Marker.toc.beginLine Marker.toc.endLine tocLines) :
    blocks (text.edited (fileEdit d toc nav).edits) =
      blocks (assembled navLines (before d text) tocLines (after d text)) := by
  rw [blocks_eq, blocks_eq, edited_fresh hd ht hn,
    ofText_opened d text _ (Marker.getLast?_wrap _ _), hnav, htoc, assembled]

end Plan

end DocTree
