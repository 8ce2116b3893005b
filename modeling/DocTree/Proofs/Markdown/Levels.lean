import DocTree.Markdown.Page

/-!
# Levels of headings

Whatever containers a heading stands in, its level lies between one and six.
-/
namespace DocTree.Markdown

/-- A block is no heading, or one of a level from one to six. -/
def Block.Leveled {α : Type} (b : Block α) : Prop :=
  ∀ level content, b.kind = .heading level content → 1 ≤ level ∧ level ≤ 6

def Reader.Levels (read : Reader) : Prop :=
  ∀ f lines, ∀ b ∈ (read f lines).1, b.Leveled

theorem heading?_level {f : Frame} {l : Line} {level : Nat} {content : Text}
    (h : heading? f l = some (level, content)) : 1 ≤ level ∧ level ≤ 6 := by
  unfold heading? at h
  dsimp only at h
  split at h
  · cases h
  · rename_i hnot
    cases h
    simp only [Bool.or_eq_true, decide_eq_true_eq, not_or] at hnot
    omega

theorem underline?_level {l : Line} {level : Nat} (h : underline? l = some level) :
    1 ≤ level ∧ level ≤ 6 := by
  unfold underline? at h
  split at h
  · cases h
  · split at h
    · cases h
      split <;> omega
    · cases h

theorem underlined?_level {f : Frame} {lines : List Line} {n level : Nat}
    (h : underlined? f lines = some (n, level)) : 1 ≤ level ∧ level ≤ 6 := by
  induction lines generalizing n with
  | nil => cases h
  | cons l rest ih =>
    rw [underlined?] at h
    split at h
    · cases h
    · split at h
      · rename_i found hfound
        cases h
        split at hfound
        · cases hfound
        · exact underline?_level hfound
      · split at h
        · obtain ⟨⟨m, found⟩, hfound, heq⟩ := Option.map_eq_some_iff.mp h
          cases heq
          exact ih hfound
        · cases h

section

variable {quote item : Reader}

/-- Blocks of any other kind have no level. -/
theorem leveled_of_kind {b : Block Text} (h : ∀ level content, b.kind ≠ .heading level content) :
    b.Leveled :=
  fun level content hkind => absurd hkind (h level content)

theorem readItem_levels (hitem : item.Levels) (f : Frame) (m : ListMarker) (l : Line)
    (rest : List Line) : ∀ b ∈ (readItem item f m l rest).1, b.Leveled := by
  unfold readItem
  dsimp only
  split
  · simp
  · exact hitem _ _

theorem readItems_levels (hitem : item.Levels) (f : Frame) (m : ListMarker) (owned : Nat)
    (lines : List Line) : ∀ b ∈ (readItems item f m owned lines).1, b.Leveled := by
  induction lines generalizing owned with
  | nil => cases owned <;> simp [readItems]
  | cons l rest ih =>
    cases owned with
    | succ owned => exact ih owned
    | zero =>
      rw [readItems]
      split
      · simp
      · intro b hb
        rcases List.mem_append.mp hb with hb | hb
        · rcases List.mem_cons.mp hb with rfl | hb
          · exact leveled_of_kind (by simp)
          · exact readItem_levels hitem _ _ _ _ b hb
        · exact ih _ b hb

theorem readBlock_levels (hquote : quote.Levels) (hitem : item.Levels) (f : Frame) (l : Line)
    (rest : List Line) : ∀ b ∈ (readBlock quote item f l rest).1, b.Leveled := by
  have hleaf : ∀ kind, (∀ level content, kind ≠ .heading level content) →
      ∀ b ∈ [(⟨l.index, kind⟩ : Block Text)], b.Leveled := by
    intro kind hkind b hb
    cases List.mem_singleton.mp hb
    exact leveled_of_kind hkind
  have hheading : ∀ level content, 1 ≤ level ∧ level ≤ 6 →
      ∀ b ∈ [(⟨l.index, .heading level content⟩ : Block Text)], b.Leveled := by
    intro level content hlevel b hb found inner hkind
    cases List.mem_singleton.mp hb
    cases hkind
    exact hlevel
  unfold readBlock
  split
  · exact hleaf _ (by simp)
  split
  · exact hleaf _ (by simp)
  split
  · exact List.forall_mem_cons.mpr ⟨leveled_of_kind (by simp), hquote _ _⟩
  split
  · exact hleaf _ (by simp)
  split
  · intro b hb
    rcases List.mem_append.mp hb with hb | hb
    · rcases List.mem_cons.mp hb with rfl | hb
      · exact leveled_of_kind (by split <;> simp)
      rcases List.mem_cons.mp hb with rfl | hb
      · exact leveled_of_kind (by simp)
      · exact readItem_levels hitem _ _ _ _ b hb
    · exact readItems_levels hitem _ _ _ _ b hb
  split
  · exact hleaf _ (by simp)
  split
  · exact hleaf _ (by simp)
  split
  · rename_i hfound
    exact hheading _ _ (heading?_level hfound)
  split
  · rename_i hfound
    exact hheading _ _ (underlined?_level hfound)
  · exact hleaf _ (by simp)

theorem readBlocks_levels (hquote : quote.Levels) (hitem : item.Levels) (f : Frame) (owned : Nat)
    (lines : List Line) : ∀ b ∈ (readBlocks quote item f owned lines).1, b.Leveled := by
  induction lines generalizing owned with
  | nil => cases owned <;> simp [readBlocks]
  | cons l rest ih =>
    cases owned with
    | succ owned => exact ih owned
    | zero =>
      rw [readBlocks]
      split
      · exact ih 0
      split
      · simp
      · exact List.forall_mem_append.mpr ⟨readBlock_levels hquote hitem f l rest, ih _⟩

end

theorem passOver_levels : passOver.Levels := by
  intro f lines
  unfold passOver
  split
  · simp
  · split <;> simp

theorem reader_levels (depth : Nat) : (reader depth).Levels := by
  induction depth using reader.induct with
  | case1 => exact passOver_levels
  | case2 => exact fun f => readBlocks_levels passOver_levels passOver_levels f 0
  | case3 depth ih₁ ih₂ => exact fun f => readBlocks_levels ih₁ ih₂ f 0

/-- Every heading of a page has a level from one to six. -/
theorem Page.title_level {s : Text} {t : Title} (h : t ∈ titles (ofText s)) :
    1 ≤ t.level ∧ t.level ≤ 6 := by
  obtain ⟨b, hb, ht⟩ := List.mem_filterMap.mp h
  obtain ⟨⟨index, kind⟩, ha, rfl⟩ := List.mem_map.mp hb
  have hlevel := reader_levels maxDepth {} (Line.ofText s) _ ha
  cases kind with
  | heading level content =>
    cases ht
    exact hlevel level content rfl
  | _ => cases ht

end DocTree.Markdown
