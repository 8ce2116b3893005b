import DocTree.Text.Lines
import Mathlib.Data.List.DropRight

/-!
# Parts of a text

A text is cut at a separator as any list is. Put together again with the separator in between, its
parts are the text. Its lines are its parts at line feeds once every break is one.
-/
namespace DocTree

namespace Text

theorem splitOn_eq (separator : Char) (s : Text) : splitOn separator s = List.splitOn separator s := by
  induction s with
  | nil => rfl
  | cons c s ih =>
    rw [splitOn, ih, List.splitOn_cons_eq_if_modifyHead]
    cases hparts : List.splitOn separator s with
    | nil => exact absurd hparts (List.splitOn_ne_nil separator s)
    | cons part parts => simp

theorem splitOn_ne_nil (separator : Char) (s : Text) : splitOn separator s ≠ [] := by
  rw [splitOn_eq]
  exact List.splitOn_ne_nil separator s

/-- The parts of a text that is cut at a separator are those before and those after it. -/
theorem splitOn_append (separator : Char) (s t : Text) :
    splitOn separator (s ++ separator :: t) = splitOn separator s ++ splitOn separator t := by
  simp only [splitOn_eq, List.splitOn_append_cons_self]

theorem splitOn_of_notMem {separator : Char} {s : Text} (h : separator ∉ s) :
    splitOn separator s = [s] := by
  rw [splitOn_eq, List.splitOn_eq_singleton h]

theorem intercalate_splitOn (separator : Char) (s : Text) :
    List.intercalate [separator] (splitOn separator s) = s := by
  rw [splitOn_eq, List.intercalate_splitOn]

theorem splitOn_intercalate {separator : Char} {parts : List Text} (hne : parts ≠ [])
    (h : ∀ part ∈ parts, separator ∉ part) :
    splitOn separator (List.intercalate [separator] parts) = parts := by
  rw [splitOn_eq, List.splitOn_intercalate separator h hne]

theorem intercalate_append {separator : Text} {parts more : List Text} (hparts : parts ≠ [])
    (hmore : more ≠ []) :
    List.intercalate separator (parts ++ more) =
      List.intercalate separator parts ++ separator ++ List.intercalate separator more := by
  induction parts with
  | nil => exact absurd rfl hparts
  | cons part parts ih =>
    cases parts with
    | nil => rw [List.singleton_append, List.intercalate_cons_of_ne_nil hmore, List.intercalate_singleton]
    | cons next rest =>
      rw [List.cons_append, List.cons_append, List.intercalate_cons_cons, ← List.cons_append,
        ih (by simp), List.intercalate_cons_cons]
      simp only [List.append_assoc]

theorem intercalate_rdrop_eq_iff {separator : Text} (hsep : separator ≠ []) {parts : List Text}
    {n : Nat} (hn : n < parts.length) :
    List.intercalate separator (parts.rdrop n) = List.intercalate separator parts ↔ n = 0 := by
  constructor
  · intro heq
    by_contra hne
    have hkept : parts.rdrop n ≠ [] := by
      rw [List.rdrop, ne_eq, List.take_eq_nil_iff]
      rintro (h | rfl)
      · omega
      · simp at hn
    have hmore : parts.drop (parts.length - n) ≠ [] := by
      rw [ne_eq, List.drop_eq_nil_iff]
      omega
    have hcut : List.intercalate separator (parts.rdrop n ++ parts.drop (parts.length - n)) = _ :=
      intercalate_append hkept hmore
    rw [List.rdrop, List.take_append_drop, ← List.rdrop, heq] at hcut
    have := congrArg List.length hcut
    have hseplength := List.length_pos_of_ne_nil hsep
    simp only [List.length_append] at this
    omega
  · rintro rfl
    rw [List.rdrop_zero]

theorem notMem_of_mem_splitOn {separator : Char} {s part : Text}
    (h : part ∈ splitOn separator s) : separator ∉ part := by
  induction s generalizing part with
  | nil =>
    rw [List.mem_singleton.mp h]
    exact List.not_mem_nil
  | cons c s ih =>
    rw [splitOn] at h
    split at h
    · rcases List.mem_cons.mp h with rfl | h
      · exact List.not_mem_nil
      · exact ih h
    · rename_i hc
      cases hs : splitOn separator s with
      | nil =>
        rw [hs] at h
        rw [List.mem_singleton.mp h]
        simpa using Ne.symm hc
      | cons first rest =>
        rw [hs] at h
        rcases List.mem_cons.mp h with rfl | h
        · have := ih (hs ▸ List.mem_cons_self)
          simpa [this] using Ne.symm hc
        · exact ih (by simp [hs, h])

theorem subset_intercalate {separator part : Text} {parts : List Text} (h : part ∈ parts) :
    part ⊆ List.intercalate separator parts := by
  induction parts with
  | nil => cases h
  | cons first rest ih =>
    cases rest with
    | nil =>
      rw [List.mem_singleton.mp h, List.intercalate_singleton]
      exact List.Subset.refl first
    | cons next rest =>
      rw [List.intercalate_cons_cons]
      obtain rfl | h := List.mem_cons.mp h
      · exact fun c hc => by simp [hc]
      · exact List.subset_append_of_subset_right _ (ih h)

/-- Parts of a text are made of its characters. -/
theorem subset_of_mem_splitOn {separator : Char} {s part : Text} (h : part ∈ splitOn separator s) :
    part ⊆ s := by
  rw [← intercalate_splitOn separator s]
  exact subset_intercalate h

theorem mem_of_mem_intercalate {c : Char} {separator : Text} {parts : List Text}
    (h : c ∈ List.intercalate separator parts) : c ∈ separator ∨ ∃ part ∈ parts, c ∈ part := by
  induction parts with
  | nil => cases h
  | cons first rest ih =>
    cases rest with
    | nil => exact .inr ⟨first, by simp, by simpa using h⟩
    | cons next rest =>
      rw [List.intercalate_cons_cons] at h
      obtain h | h := List.mem_append.mp h
      · obtain h | h := List.mem_append.mp h
        · exact .inr ⟨first, by simp, h⟩
        · exact .inl h
      · exact (ih h).imp_right fun ⟨part, hpart, hc⟩ => ⟨part, by simp [hpart], hc⟩

theorem notMem_intercalate {c : Char} {separator : Text} {parts : List Text} (hc : c ∉ separator)
    (h : ∀ part ∈ parts, c ∉ part) : c ∉ List.intercalate separator parts := by
  intro hmem
  obtain hmem | ⟨part, hpart, hmem⟩ := mem_of_mem_intercalate hmem
  · exact hc hmem
  · exact h part hpart hmem

/-- A text with every break made a line feed. -/
def unified : Text → Text
  | [] => []
  | '\r' :: '\n' :: s => '\n' :: unified s
  | '\r' :: s => '\n' :: unified s
  | c :: s => c :: unified s

/-- The lines of a text are what is between line feeds once every break is one. -/
theorem lines_eq_splitOn (s : Text) : (Lines.ofText s).lines = splitOn '\n' s.unified := by
  fun_induction Lines.ofText s with
  | case1 => rfl
  | case2 s ih => simpa [unified, splitOn, Lines.start, Lines.lines] using ih
  | case3 s hne ih =>
    have hunified : unified ('\r' :: s) = '\n' :: unified s := by
      cases s with
      | nil => rfl
      | cons c s =>
        rw [unified]
        exact hne
    simpa [hunified, splitOn, Lines.start, Lines.lines] using ih
  | case4 s ih => simpa [unified, splitOn, Lines.start, Lines.lines] using ih
  | case5 c s hcrlf hcr hlf ih =>
    have hunified : unified (c :: s) = c :: unified s := by
      rw [unified]
      · exact hcrlf
      · exact hcr
    rw [hunified, splitOn, if_neg hlf, ← ih]
    rfl

/-- Texts have the same lines exactly if they are one text once every break is a line feed. -/
theorem unified_eq_iff {s t : Text} :
    t.unified = s.unified ↔ (Lines.ofText t).lines = (Lines.ofText s).lines := by
  rw [lines_eq_splitOn, lines_eq_splitOn]
  constructor
  · exact fun h => congrArg (splitOn '\n') h
  · intro h
    rw [← intercalate_splitOn '\n' t.unified, h, intercalate_splitOn]

theorem unified_unified (s : Text) : s.unified.unified = s.unified := by
  fun_induction unified s with
  | case1 => rfl
  | case2 s ih => simpa [unified] using ih
  | case3 s hne ih => simpa [unified] using ih
  | case4 c s hcrlf hcr ih =>
    rw [unified, ih]
    · exact fun _ h _ => hcr h
    · exact hcr

theorem unified_of_notMem {s : Text} (h : '\r' ∉ s) : s.unified = s := by
  fun_induction unified s with
  | case1 => rfl
  | case2 s ih => simp at h
  | case3 s hne ih => simp at h
  | case4 c s hcrlf hcr ih => rw [ih (fun hs => h (List.mem_cons_of_mem c hs))]

theorem lines_of_notMem {s : Text} (h : '\r' ∉ s) : (Lines.ofText s).lines = splitOn '\n' s := by
  rw [lines_eq_splitOn, unified_of_notMem h]

theorem breaks_of_notMem {s : Text} (h : '\r' ∉ s) : ∀ b ∈ (Lines.ofText s).breaks, b = .lf := by
  fun_induction Lines.ofText s with
  | case1 => simp [Lines.breaks]
  | case2 s ih => simp at h
  | case3 s _ ih => simp at h
  | case4 s ih =>
    have := ih (fun hs => h (List.mem_cons_of_mem '\n' hs))
    simpa [Lines.breaks, Lines.start] using this
  | case5 c s _ _ _ ih => exact ih (fun hs => h (List.mem_cons_of_mem c hs))

end Text

end DocTree
