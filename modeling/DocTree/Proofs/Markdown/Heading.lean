import DocTree.Proofs.Markdown.Pieces
import DocTree.Proofs.Text.Inner
import Mathlib.Data.List.DropRight

/-!
# Documents of one heading

A line that begins with a number sign and a space is a document of one heading. Its content is what
follows, from the first character to the last that is no blank.
-/
namespace DocTree.Markdown

variable {s : Text}

def Line.sharp (s : Text) : Line :=
  .flush 0 ('#' :: ' ' :: s)

theorem Line.ofText_sharp (h : s.Unbroken) :
    ofText ('#' :: ' ' :: s) = [sharp (withoutNull s)] := by
  have hunbroken : Text.Unbroken ('#' :: ' ' :: s) :=
    Text.unbroken_cons.mpr ⟨by decide, by decide, Text.unbroken_cons.mpr ⟨by decide, by decide, h⟩⟩
  have hkept : keptLines ('#' :: ' ' :: s) = ['#' :: ' ' :: withoutNull s] := by
    rw [keptLines, Text.lines_unbroken hunbroken]
    rfl
  rw [ofText_eq, hkept, numbered, ofBlanks_flush (by simp [Text.isGap])]
  rfl

theorem Line.sharp_isText (s : Text) : IsText {} (sharp s) where
  notCode := flush_isCode {} 0 _
  notFence := Fence.of?_eq_none {} (by simp [sharp, flush, content])
  notQuote := quoted?_eq_none (by simp [sharp, flush, content])
  notRule := isRule_eq_false {} (by simp [sharp, flush, content])
  notList := listStart?_eq_none false {}
    (ListMarker.of?_eq_none (c := '#') rfl (by decide) (by decide))

theorem Line.sharp_heading? (s : Text) :
    heading? {} (sharp s) = some (1, headingText (' ' :: s)) := by
  have hcontent : (sharp s).content = '#' :: ' ' :: s := rfl
  have hcode : Frame.isCode {} (sharp s) = false := flush_isCode {} 0 _
  simp [heading?, hcontent, hcode, Text.isGap]

theorem readText_sharp (s : Text) :
    readText {} (.sharp s) [] = ([⟨0, .heading 1 (headingText (' ' :: s))⟩], 0) := by
  have hdefinition := definition_eq_none (rfl : ('#' :: ' ' :: s).head? = _) (by decide) 0 []
  have hhtml : html? {} (.sharp s) = none :=
    html?_eq_none {} (by simp [Line.sharp, Line.flush, Line.content])
  rw [Line.sharp] at hhtml ⊢
  rw [readText, List.take_nil, hdefinition, hhtml, ← Line.sharp, Line.sharp_heading?]
  rfl

/-- A document of one heading. -/
theorem Page.ofText_heading (h : s.Unbroken) : Page.ofText ("# ".toList ++ s) =
    [⟨0, .heading 1 (Content.read [] (headingText (' ' :: Line.withoutNull s)))⟩] := by
  have hblocks : blocks ("# ".toList ++ s) =
      [⟨0, .heading 1 (headingText (' ' :: Line.withoutNull s))⟩] := by
    have htext : "# ".toList ++ s = '#' :: ' ' :: s := rfl
    rw [blocks_eq, htext, Line.ofText_sharp h,
      readOuter_text (Line.sharp_isText _) rfl (Int.le_refl 0), readText_sharp]
    rfl
  rw [Page.ofText, hblocks]
  rfl

theorem isMargin_of_isGap {c : Char} (h : Text.isGap c) : Text.isMargin c := by
  have hblank : c = ' ' ∨ c = '\t' := by simpa [Text.isGap] using h
  rcases hblank with rfl | rfl <;> rfl

/-- Nothing is dropped behind a character that stays. -/
theorem dropWhile_reverse_concat {p : Char → Bool} {last : Char} (h : p last = false)
    (front : Text) : ((front ++ [last]).reverse.dropWhile p).reverse = front ++ [last] :=
  List.rdropWhile_concat_neg p front last (by simp [h])

/-- Between two characters that are no blanks the text of a heading stays as it is. -/
theorem headingText_eq {first last : Char} (hfirst : Text.isMargin first = false)
    (hlast : Text.isMargin last = false) (hsharp : last ≠ '#') (inner : Text) :
    headingText (' ' :: first :: inner ++ [last]) = first :: inner ++ [last] := by
  have hgap : Text.isGap last = false := by
    by_contra h
    rw [isMargin_of_isGap (by simpa using h)] at hlast
    cases hlast
  rw [headingText, dropWhile_reverse_concat hgap, dropWhile_reverse_concat (by simpa using hsharp),
    List.getLast?_concat, Option.any_some, hgap, if_neg (by simp), Text.trim, List.cons_append,
    List.dropWhile_cons_of_pos rfl, List.cons_append,
    List.dropWhile_cons_of_neg (by simp [hfirst]), ← List.cons_append,
    dropWhile_reverse_concat hlast]

end DocTree.Markdown
