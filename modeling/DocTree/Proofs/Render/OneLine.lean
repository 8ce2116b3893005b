import DocTree.Proofs.Outcome
import DocTree.Proofs.Text.Lines
import DocTree.Proofs.Text.Parts
import DocTree.Render

/-!
# Rendered lines

Where no title and no path holds a break, no line of a table of contents or of a navigation does.
-/
namespace DocTree

namespace Text

theorem unbroken_of_mem_splitOn {separator : Char} {s part : Text} (hs : s.Unbroken)
    (h : part ∈ splitOn separator s) : part.Unbroken := by
  have hsub := subset_of_mem_splitOn h
  exact ⟨fun hlf => hs.1 (hsub hlf), fun hcr => hs.2 (hsub hcr)⟩

theorem unbroken_intercalate {separator : Text} {parts : List Text} (hs : separator.Unbroken)
    (h : ∀ part ∈ parts, part.Unbroken) : Unbroken (List.intercalate separator parts) :=
  ⟨notMem_intercalate hs.1 fun part hpart => (h part hpart).1,
    notMem_intercalate hs.2 fun part hpart => (h part hpart).2⟩

end Text

namespace Path

theorem mem_walk {absolute : Bool} {place : List Text} {c part : Text}
    (h : part ∈ walk absolute place c) : part ∈ place ∨ part = c := by
  unfold walk at h
  split at h
  · split at h
    · split at h
      · cases h
      · exact Or.inr (List.mem_singleton.mp h)
    · split at h
      · simpa using h
      · exact Or.inl (List.dropLast_subset _ h)
  · simpa using h

theorem mem_foldl_walk {absolute : Bool} {steps place : List Text} {part : Text}
    (h : part ∈ steps.foldl (walk absolute) place) : part ∈ place ∨ part ∈ steps := by
  induction steps generalizing place with
  | nil => exact Or.inl h
  | cons c steps ih =>
    rcases ih h with h | h
    · rcases mem_walk h with h | rfl
      · exact Or.inl h
      · exact Or.inr (by simp)
    · exact Or.inr (by simp [h])

/-- The path from one place to another holds no break if its target holds none. -/
theorem relative_unbroken {cwd : List Text} {target : Text} (hcwd : ∀ part ∈ cwd, part.Unbroken)
    (htarget : target.Unbroken) (start : Text) : Text.Unbroken (relative cwd target start) := by
  have hplace : ∀ part ∈ place cwd target, part.Unbroken := by
    intro part hpart
    rcases mem_foldl_walk hpart with hpart | hpart
    · split at hpart
      · cases hpart
      · exact hcwd part hpart
    · exact Text.unbroken_of_mem_splitOn htarget (List.mem_filter.mp hpart).1
  have hway : ∀ part ∈ way (place cwd start) (place cwd target), part.Unbroken := by
    intro part hpart
    rcases List.mem_append.mp hpart with hpart | hpart
    · rw [(List.mem_replicate.mp hpart).2]
      decide
    · exact hplace part (List.mem_of_mem_drop hpart)
  unfold relative
  split
  · decide
  · exact Text.unbroken_intercalate (by decide) hway

end Path

def Entry.Unbroken (o : Entry) : Prop :=
  o.title.Unbroken ∧ o.filename.Unbroken

def Nav.Unbroken (n : Nav) : Prop :=
  (∀ o ∈ n.previous, o.Unbroken) ∧ (∀ o ∈ n.up, o.Unbroken) ∧ ∀ o ∈ n.next, o.Unbroken

def Settings.Unbroken (s : Settings) : Prop :=
  s.rootDocument.Unbroken ∧ ∀ part ∈ s.workingDirectory, part.Unbroken

def Section.Unbroken (x : Section) : Prop :=
  x.title.Unbroken ∧ x.anchor.Unbroken

instance (o : Entry) : Decidable o.Unbroken :=
  inferInstanceAs (Decidable (_ ∧ _))

instance (n : Nav) : Decidable n.Unbroken :=
  inferInstanceAs (Decidable (_ ∧ _))

instance (s : Settings) : Decidable s.Unbroken :=
  inferInstanceAs (Decidable (_ ∧ _))

instance (x : Section) : Decidable x.Unbroken :=
  inferInstanceAs (Decidable (_ ∧ _))

namespace Render

variable {s : Settings} {filename : Text}

theorem link_unbroken {title target : Text} (htitle : title.Unbroken) (htarget : target.Unbroken) :
    (link title target).Unbroken := by
  have hopen : Text.Unbroken ('[' :: title) := Text.unbroken_cons.mpr ⟨by decide, by decide, htitle⟩
  exact Text.unbroken_append.mpr ⟨Text.unbroken_append.mpr ⟨Text.unbroken_append.mpr
    ⟨hopen, by decide⟩, htarget⟩, by decide⟩

theorem entryLink_unbroken (hs : s.Unbroken) {o : Entry} (ho : o.Unbroken) {text : Text}
    (h : entryLink s filename o = .ok text) : text.Unbroken := by
  obtain ⟨path, hpath, rfl⟩ := map_eq_ok.mp h
  refine link_unbroken ho.1 ?_
  unfold target at hpath
  dsimp only at hpath
  split at hpath
  · cases hpath
  · obtain ⟨base, rfl⟩ : ∃ base, path =
        if Path.relative s.workingDirectory o.filename base = ['.'] then s.rootDocument
        else Path.relative s.workingDirectory o.filename base := ⟨_, (Except.ok.inj hpath).symm⟩
    split
    · exact hs.1
    · exact Path.relative_unbroken hs.2 ho.2 base

theorem cell_unbroken (hs : s.Unbroken) {o : Option Entry} (ho : ∀ x ∈ o, x.Unbroken) {text : Text}
    (h : cell s filename o = .ok text) : text.Unbroken := by
  cases o with
  | none =>
    cases h
    decide
  | some o => exact entryLink_unbroken hs (ho o rfl) h

theorem row_unbroken {a b c : Text} (ha : a.Unbroken) (hb : b.Unbroken) (hc : c.Unbroken) :
    (row a b c).Unbroken := by
  have hleft : Text.Unbroken ("| ".toList ++ a) := Text.unbroken_append.mpr ⟨by decide, ha⟩
  have hmiddle : Text.Unbroken ("| ".toList ++ a ++ " | ".toList ++ b) :=
    Text.unbroken_append.mpr ⟨Text.unbroken_append.mpr ⟨hleft, by decide⟩, hb⟩
  exact Text.unbroken_append.mpr ⟨Text.unbroken_append.mpr ⟨Text.unbroken_append.mpr
    ⟨hmiddle, by decide⟩, hc⟩, by decide⟩

theorem cellTitle_unbroken {title : String} (h : Text.Unbroken title.toList) (content : Text) :
    (cellTitle title content).Unbroken := by
  unfold cellTitle
  split
  · decide
  · exact h

/-- A navigation is made of rows that begin with a bar. -/
theorem nav_eq_ofLines (hs : s.Unbroken) {n : Nav} (hn : n.Unbroken) {text : Text}
    (h : nav s filename n = .ok text) :
    ∃ lines, text = ofLines lines ∧ ∀ line ∈ lines, line.Unbroken ∧ line.head? = some '|' := by
  unfold nav at h
  split at h
  · cases h
    exact ⟨[], rfl, by simp⟩
  · obtain ⟨previous, hprevious, h⟩ := bind_eq_ok.mp h
    obtain ⟨up, hup, h⟩ := bind_eq_ok.mp h
    obtain ⟨next, hnext, h⟩ := bind_eq_ok.mp h
    cases h
    have hprevious := cell_unbroken hs hn.1 hprevious
    have hup := cell_unbroken hs hn.2.1 hup
    have hnext := cell_unbroken hs hn.2.2 hnext
    refine ⟨_, rfl, ?_⟩
    intro line hline
    rcases List.mem_cons.mp hline with rfl | hline
    · exact ⟨row_unbroken (cellTitle_unbroken (by decide) _) (cellTitle_unbroken (by decide) _)
        (cellTitle_unbroken (by decide) _), rfl⟩
    rcases List.mem_cons.mp hline with rfl | hline
    · exact ⟨by decide, rfl⟩
    · rw [List.mem_singleton.mp hline]
      exact ⟨row_unbroken hprevious hup hnext, rfl⟩

theorem tocLine_unbroken {x : Section} (h : x.Unbroken) : (tocLine x).Unbroken := by
  have hindent : ∀ n, Text.Unbroken (List.replicate n ' ') := by
    intro n
    constructor
    · intro hmem
      exact absurd (List.mem_replicate.mp hmem).2 (by decide)
    · intro hmem
      exact absurd (List.mem_replicate.mp hmem).2 (by decide)
  exact Text.unbroken_append.mpr ⟨Text.unbroken_append.mpr ⟨hindent _, by decide⟩,
    link_unbroken h.1 h.2⟩

def tocLines (rows : List Text) : List Text :=
  [tocRule, "Table of Contents".toList, []] ++ rows ++ [tocRule]

theorem tocLines_unbroken {rows : List Text} (h : ∀ row ∈ rows, row.Unbroken) :
    ∀ line ∈ tocLines rows, line.Unbroken := by
  intro line hline
  rcases List.mem_append.mp hline with hline | hline
  · rcases List.mem_append.mp hline with hline | hline
    · have hfixed : ∀ l ∈ [tocRule, "Table of Contents".toList, []], Text.Unbroken l := by decide
      exact hfixed line hline
    · exact h line hline
  · rw [List.mem_singleton.mp hline]
    decide

theorem sectionToc_eq_ofLines (sections : List Section) (depth : Int) :
    sectionToc sections depth = ofLines (if sections.isEmpty then [] else
      tocLines ((Section.flattenAll depth sections).map tocLine)) := by
  unfold sectionToc
  split <;> rfl

end Render

end DocTree
