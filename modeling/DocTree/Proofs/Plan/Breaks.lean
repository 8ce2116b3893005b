import DocTree.Proofs.FileSystem.Landing
import DocTree.Proofs.FileSystem.Overwrite
import DocTree.Proofs.Load.Documents
import DocTree.Run

/-!
# Texts with other breaks

A reader of Markdown makes every break of a text a line feed before it counts lines. The lines that
are numbered when a file is edited are the same ones, whichever breaks stand between them. So a text
with the same lines makes the same document, and a tree with it is loaded and planned alike.
-/
namespace DocTree

namespace Text

theorem lineCount_congr {s t : Text} (h : (Lines.ofText t).lines = (Lines.ofText s).lines) :
    t.lineCount = s.lineCount := by
  have hrest : ∀ l : Lines, l.rest.length = l.lines.length - 1 := by
    simp [Lines.lines]
  rw [lineCount, lineCount, Lines.count, Lines.count, hrest, hrest, h]

end Text

namespace Markdown.Page

/-- A page is read from the lines of a text. -/
theorem ofText_congr {s t : Text} (h : (Lines.ofText t).lines = (Lines.ofText s).lines) :
    ofText t = ofText s := by
  rw [ofText, ofText, blocks, blocks, Line.ofText, Line.ofText, h]

/-- Making every break a line feed before a page is read makes no difference. -/
theorem ofText_unified (s : Text) : ofText s.unified = ofText s :=
  ofText_congr (Text.unified_eq_iff.mp (Text.unified_unified s))

end Markdown.Page

theorem Load.ofText_congr {t t' : Text} (h : (Lines.ofText t').lines = (Lines.ofText t).lines)
    (s : Settings) (filename : Text) : Load.ofText s filename t' = Load.ofText s filename t := by
  rw [Load.ofText, Load.ofText, Markdown.Page.ofText_congr h, Text.lineCount_congr h]

namespace FileSystem

structure SameLines (fs fs' : FileSystem) : Prop where
  alike : fs.Alike fs'
  lines : ∀ path t t', fs.readText path = .ok t → fs'.readText path = .ok t' →
    (Lines.ofText t').lines = (Lines.ofText t).lines

/-- A text is put in place of one with the same lines. -/
theorem Holds.sameLines {fs : FileSystem} {name : Text} {place : List Text} {t t' : Text}
    (h : fs.Holds name place t) (hlines : (Lines.ofText t').lines = (Lines.ofText t).lines) :
    fs.SameLines (fs.written place t') where
  alike := h.alike_written t'
  lines := by
    intro path u u' hu hu'
    obtain ⟨there, hu⟩ := exists_holds hu
    obtain ⟨there', hu'⟩ := exists_holds hu'
    have hthere := ((h.alike_written t').leadsTo path there').mp hu'.leadsTo
    cases hu.leadsTo.symm.trans hthere
    have hat := hu'.at?
    by_cases hplace : there = place
    · subst hplace
      rw [h.textAt.at?_written t'] at hat
      cases hu.text_eq h
      rwa [text_unique rfl hat] at hlines
    · rw [FileSystem.written, Node.at?_put_other h.at? hu.at? hplace] at hat
      rw [text_unique rfl hat]

end FileSystem

/-- Computations that begin alike go on alike. -/
theorem Traced.lift_bind_congr {α β γ : Type} {x x' : Except Fault α} {v : α → γ}
    (h : x'.map v = x.map v) {f f' : α → Traced β}
    (hf : ∀ a a', x = .ok a → x' = .ok a' → v a' = v a → f' a' = f a) :
    (lift x' >>= f') = (lift x >>= f) := by
  cases hx : x with
  | error fault =>
    rw [eq_error_of_map_eq h hx]
    rfl
  | ok a =>
    obtain ⟨a', hx', hv⟩ := exists_ok_of_map_eq h hx
    have hpure : ∀ a : α, lift (.ok a) = pure a := fun _ => rfl
    rw [hx', hpure, hpure, pure_bind, pure_bind, hf a a' hx hx' hv]

namespace Load

variable {s : Settings} {fs fs' : FileSystem}

theorem document_sameLines (h : fs.SameLines fs') (filename : Text) :
    document s fs' filename = document s fs filename := by
  apply Traced.lift_bind_congr (h.alike.readText filename)
  intro t t' ht ht' _
  rw [ofText_congr (h.lines filename t t' ht ht')]

/-- What is found is read as a directory or as a file in both file systems. -/
theorem find_sameLines (h : fs.SameLines fs') (path : Text)
    {directory directory' other other' : Traced Entry} (hdirectory : directory' = directory) (hother : other' = other) :
    (Traced.lift (fs'.find path) >>= fun n => match n with
      | .directory _ => directory'
      | _ => other') =
    Traced.lift (fs.find path) >>= fun n => match n with
      | .directory _ => directory
      | _ => other := by
  apply Traced.lift_bind_congr (h.alike.find path)
  intro n n' _ _ hkind
  cases n with
  | file bytes =>
    obtain ⟨bytes', rfl⟩ := Node.kind_eq_kind_file hkind
    exact hother
  | link target =>
    rw [Node.kind_eq_link hkind]
    exact hother
  | directory entries =>
    obtain ⟨entries', rfl, -⟩ := Node.kind_eq_directory hkind
    exact hdirectory

theorem entry_sameLines (h : fs.SameLines fs') {directory directory' : Text → Traced Entry}
    (hdirectory : ∀ path, directory' path = directory path) (path : Text) :
    entry s fs' directory' path = entry s fs directory path := by
  apply find_sameLines h path (hdirectory path)
  rw [document_sameLines h]

theorem rootDocument_sameLines (h : fs.SameLines fs') (path : Text) :
    rootDocument s fs' path = rootDocument s fs path := by
  simp only [rootDocument, h.alike.exists?, document_sameLines h]

theorem directoryWithin_sameLines (h : fs.SameLines fs') (room : Nat) (path : Text) :
    directoryWithin s fs' room path = directoryWithin s fs room path := by
  induction room generalizing path with
  | zero => rfl
  | succ room ih =>
    simp only [directoryWithin, h.alike.names, rootDocument_sameLines h, entry_sameLines h ih]

end Load

/-- Trees that differ in breaks only are loaded alike, and the same is reported of them. -/
theorem load_sameLines {fs fs' : FileSystem} (h : fs.SameLines fs') (s : Settings) (path : Text) :
    load s fs' path = load s fs path := by
  apply Load.find_sameLines h path (Load.directoryWithin_sameLines h _ path)
  rw [Load.document_sameLines h]

theorem plan_sameLines {fs fs' : FileSystem} (h : fs.SameLines fs') (s : Settings) (path : Text) :
    plan s fs' path = plan s fs path := by
  rw [plan, plan, load_sameLines h, h.alike.workingDirectory]

/-- Texts with the same lines are one text once every break is a line feed, which is how a reader takes
them. They make the same document, with the same edits wherever it stands, and a file that holds one
of them in place of the other changes nothing of what is loaded, reported or planned. -/
theorem plan_of_lines {t t' : Text} (h : (Lines.ofText t').lines = (Lines.ofText t).lines) :
    (∀ s filename, Load.ofText s filename t' = Load.ofText s filename t ∧
      (∀ n, Plan.ofDocument s (Load.ofText s filename t') n =
        Plan.ofDocument s (Load.ofText s filename t) n) ∧
      ∀ entries n, Plan.ofRoot s (Load.ofText s filename t') entries n =
        Plan.ofRoot s (Load.ofText s filename t) entries n) ∧
    (t'.unified = t.unified ∧ Markdown.Page.ofText t' = Markdown.Page.ofText t.unified) ∧
    ∀ (fs : FileSystem) name place, fs.Holds name place t → ∀ s path,
      load s (fs.written place t') path = load s fs path ∧
        plan s (fs.written place t') path = plan s fs path := by
  have hpage : Markdown.Page.ofText t' = Markdown.Page.ofText t.unified := by
    rw [Markdown.Page.ofText_unified, Markdown.Page.ofText_congr h]
  constructor
  · intro s filename
    rw [Load.ofText_congr h]
    exact ⟨rfl, fun _ => rfl, fun _ _ => rfl⟩
  constructor
  · exact ⟨Text.unified_eq_iff.mpr h, hpage⟩
  · intro fs name place hholds s path
    have hsame := hholds.sameLines h
    exact ⟨load_sameLines hsame s path, plan_sameLines hsame s path⟩

/-- Each kind of break, one next to another, and one at the end. -/
theorem plan_of_lines_mixed :
    ∃ t t' : Text, t ≠ t' ∧ (Lines.ofText t').lines = (Lines.ofText t).lines ∧
      Plan.ofDocument {} (Load.ofText {} "a.md".toList t') {} =
        Plan.ofDocument {} (Load.ofText {} "a.md".toList t) {} ∧
      (Load.ofText {} "a.md".toList t').lineCount = 4 ∧
      (Load.ofText {} "a.md".toList t').title = "A".toList := by
  let t := "# A\r\n\r\r\n## B\r".toList
  let t' := "# A\n\n\n## B\r\n".toList
  have hlines : (Lines.ofText t').lines = (Lines.ofText t).lines := by decide
  obtain ⟨hdocument, -, -⟩ := plan_of_lines hlines
  obtain ⟨hsame, hedits, -⟩ := hdocument {} "a.md".toList
  exact ⟨t, t', by decide, hlines, hedits {}, by decide +kernel, by decide +kernel⟩

end DocTree
