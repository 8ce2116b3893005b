import DocTree.Proofs.Plan.Place
import DocTree.Proofs.Plan.Seats
import DocTree.Run

/-!
# One edit for each document

A plan has one entry for each document of the tree, in the order of the documents, and the document
is what its file says.
-/
namespace DocTree

namespace Plan

def IsFor (f : FileEdit) (d : Document) : Prop :=
  ∃ toc nav, f = fileEdit d toc nav

variable {s : Settings}

theorem isFor_of_ofDocument {d : Document} {n : Nav} {f : FileEdit}
    (h : ofDocument s d n = .ok f) : IsFor f d := by
  obtain ⟨nav, -, rfl⟩ := ofDocument_eq_ok.mp h
  exact ⟨_, nav, rfl⟩

theorem isFor_of_ofRoot {d : Document} {entries : List Entry} {n : Nav} {f : FileEdit}
    (h : ofRoot s d entries n = .ok f) : IsFor f d := by
  obtain ⟨toc, -, nav, -, rfl⟩ := ofRoot_eq_ok.mp h
  exact ⟨toc, nav, rfl⟩

/-- There is one edit for each document of a tree. -/
theorem ofEntry_isFor {e : Entry} {n : Nav} {edits : List FileEdit}
    (h : ofEntry s e n = .ok edits) : List.Forall₂ IsFor edits e.documents := by
  rw [← Entry.map_document_seats n, List.forall₂_map_right_iff]
  refine (forall₂_seats h).flip.imp ?_
  rintro f ⟨d, n, entries?⟩ hf
  cases entries? with
  | none => exact isFor_of_ofDocument hf
  | some entries => exact isFor_of_ofRoot hf

theorem filename_ofEntry {e : Entry} {n : Nav} {edits : List FileEdit}
    (h : ofEntry s e n = .ok edits) :
    edits.map FileEdit.filename = e.documents.map Document.filename := by
  have hsame : List.Forall₂ (fun f d => f.filename = Document.filename d) edits e.documents := by
    refine (ofEntry_isFor h).imp ?_
    rintro f d ⟨toc, nav, rfl⟩
    rfl
  exact List.forall₂_eq_eq_eq ▸ List.forall₂_map_left_iff.mpr (List.forall₂_map_right_iff.mpr hsame)

end Plan

theorem plan_eq_ok {s : Settings} {fs : FileSystem} {path : Text} {edits : List FileEdit} :
    plan s fs path = .ok edits ↔ ∃ e, (load s fs path).outcome = .ok e ∧
      Plan.ofEntry { s with workingDirectory := fs.workingDirectory } e {} = .ok edits := by
  rw [plan]
  cases (load s fs path).outcome with
  | error fault => simp
  | ok e =>
    simp only [Except.ok.injEq, exists_eq_left']
    cases Plan.ofEntry { s with workingDirectory := fs.workingDirectory } e {} <;> simp

end DocTree
