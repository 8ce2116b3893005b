import DocTree.Edit

/-!
# Edits with wide blocks

Carrying out edits does not look into the blocks. So edits of characters do the same to a text as to
the wide text that it is.
-/
namespace DocTree

theorem Text.wide_append (s t : Text) : wide (s ++ t) = s.wide ++ t.wide :=
  List.map_append

namespace Draft

theorem wide_apply (d : Draft) (e : Edit) : (d.apply e).wide = d.wide.apply e.wide := by
  have hlines : (d.apply e).lines.map Text.wide = (d.wide.apply e.wide).lines := by
    simp [apply, wide, Edit.wide, List.map_take, List.map_drop]
  rw [wide, hlines]
  rfl

theorem wide_foldl_apply (d : Draft) (edits : List Edit) :
    (edits.foldl apply d).wide = (edits.map Edit.wide).foldl apply d.wide := by
  induction edits generalizing d with
  | nil => rfl
  | cons e edits ih => rw [List.foldl_cons, ih, wide_apply, List.map_cons, List.foldl_cons]

theorem interleave_wide (breaks : List Break) (lines : List Text) :
    interleave (fun b => b.toText.wide) breaks (lines.map Text.wide) =
      Text.wide (interleave Break.toText breaks lines) := by
  induction breaks generalizing lines with
  | nil => rfl
  | cons b breaks ih =>
    cases lines with
    | nil => rfl
    | cons line lines =>
      rw [List.map_cons, interleave, ih, interleave, Text.wide_append, Text.wide_append]

@[simp] theorem toWide_wide (d : Draft) : d.wide.toWide = d.toText.wide := by
  obtain ⟨lines, breaks⟩ := d
  cases lines with
  | nil => rfl
  | cons first rest =>
    have hrest := interleave_wide breaks rest
    simp only [toWide, toText, join, wide, List.map_cons, hrest, Text.wide_append]

end Draft

namespace Edit

theorem insertByStart_wide (e : Edit) (edits : List Edit) :
    insertByStart e.wide (edits.map wide) = (insertByStart e edits).map wide := by
  induction edits with
  | nil => rfl
  | cons f edits ih =>
    rw [List.map_cons, insertByStart, ih]
    by_cases h : f.span.start ≤ e.span.start <;> simp [insertByStart, wide, h]

theorem fromLast_wide (edits : List Edit) : fromLast (edits.map wide) = (fromLast edits).map wide := by
  induction edits with
  | nil => rfl
  | cons e edits ih =>
    rw [fromLast, List.map_cons, List.foldr_cons, ← fromLast, ih, insertByStart_wide]
    rfl

end Edit

/-- Blocks of characters make of a text what they do as wide texts. -/
theorem Text.editedWide_wide (s : Text) (edits : List Edit) :
    s.editedWide (edits.map Edit.wide) = (s.edited edits).wide := by
  rw [editedWide, Edit.fromLast_wide, ← Draft.wide_foldl_apply, Draft.toWide_wide, edited]

end DocTree
