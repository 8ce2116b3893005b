import Mathlib.Data.List.Forall2

/-!
# Sequences

Facts on lists that hold whatever they are lists of.
-/
namespace DocTree

variable {α : Type}

/-- A list is cut at any of its elements. -/
theorem exists_split (l : List α) {n : Nat} (h : n < l.length) :
    ∃ head a tail, l = head ++ a :: tail ∧ head.length = n := by
  refine ⟨l.take n, l[n], l.drop (n + 1), ?_, ?_⟩
  · rw [← List.drop_eq_getElem_cons h, List.take_append_drop]
  · simp
    omega

/-- What is found in a list does not hang on its order if there is only one such thing. -/
theorem find?_eq_of_perm {p : α → Bool} {l more : List α} (h : l.Perm more)
    (hone : ∀ a ∈ l, ∀ b ∈ l, p a → p b → a = b) : l.find? p = more.find? p := by
  cases hl : l.find? p with
  | none =>
    rw [List.find?_eq_none] at hl
    refine (List.find?_eq_none.mpr ?_).symm
    intro b hb
    exact hl b (h.mem_iff.mpr hb)
  | some a =>
    have ha := List.mem_of_find?_eq_some hl
    have hpa := List.find?_some hl
    cases hm : more.find? p with
    | none => exact absurd hpa (List.find?_eq_none.mp hm a (h.mem_iff.mp ha))
    | some b =>
      have hb := h.mem_iff.mpr (List.mem_of_find?_eq_some hm)
      rw [hone a ha b hb hpa (List.find?_some hm)]

/-- A relation that one of two elements of a list bears to the other. -/
theorem eq_or_of_pairwise {R : α → α → Prop} {l : List α} (h : l.Pairwise R) {a b : α}
    (ha : a ∈ l) (hb : b ∈ l) : a = b ∨ R a b ∨ R b a := by
  induction h with
  | nil => simp at ha
  | cons hc _ ih =>
    rcases List.mem_cons.mp ha with rfl | ha' <;> rcases List.mem_cons.mp hb with rfl | hb'
    · exact Or.inl rfl
    · exact Or.inr (Or.inl (hc b hb'))
    · exact Or.inr (Or.inr (hc a ha'))
    · exact ih ha' hb'

/-- A rising list that holds a least and another, greatest element begins and ends with them. -/
theorem exists_inner_of_rising {f : α → Nat} {l : List α} (h : l.Pairwise fun x y => f x < f y)
    {a b : α} (ha : a ∈ l) (hb : b ∈ l) (hab : f a < f b)
    (hall : ∀ x ∈ l, f a ≤ f x ∧ f x ≤ f b) : ∃ inner, l = a :: (inner ++ [b]) := by
  cases l with
  | nil => cases ha
  | cons c rest =>
    have hfirst : a = c := by
      rcases List.mem_cons.mp ha with hac | ha'
      · exact hac
      · have hlt := List.rel_of_pairwise_cons h ha'
        have hle := (hall c List.mem_cons_self).1
        omega
    subst hfirst
    have hb' : b ∈ rest := by
      rcases List.mem_cons.mp hb with rfl | hb'
      · omega
      · exact hb'
    rcases List.eq_nil_or_concat' rest with rfl | ⟨inner, d, rfl⟩
    · cases hb'
    · have hlast : b = d := by
        rcases List.mem_append.mp hb' with hbi | hbd
        · have hlt := (List.pairwise_append.mp h.tail).2.2 b hbi d List.mem_cons_self
          have hle := (hall d (by simp)).2
          omega
        · exact List.mem_singleton.mp hbd
      rw [hlast]
      exact ⟨inner, rfl⟩

theorem nodup_eraseDups [BEq α] [LawfulBEq α] : ∀ l : List α, l.eraseDups.Nodup
  | [] => by simp
  | a :: rest => by
    rw [List.eraseDups_cons, List.nodup_cons]
    exact ⟨by simp, nodup_eraseDups _⟩
termination_by l => l.length
decreasing_by
  have := List.length_filter_le (fun b => !b == a) rest
  simp
  omega

section

variable {β : Type} {R : α → β → Prop} {l : List α} {more : List β}

/-- Of two lists that are related one by one, each element of the first has one to it. -/
theorem exists_right_of_forall₂ (h : List.Forall₂ R l more) : ∀ a ∈ l, ∃ b ∈ more, R a b := by
  induction h with
  | nil => simp
  | cons hab _ ih =>
    intro c hc
    rcases List.mem_cons.mp hc with rfl | hc
    · exact ⟨_, by simp, hab⟩
    · obtain ⟨d, hd, hcd⟩ := ih c hc
      exact ⟨d, by simp [hd], hcd⟩

/-- To what stands at a place in a list, what stands there in the other is related. -/
theorem exists_getElem?_of_forall₂ (h : List.Forall₂ R l more) {i : Nat} {a : α}
    (ha : l[i]? = some a) : ∃ b, more[i]? = some b ∧ R a b := by
  induction h generalizing i with
  | nil => cases ha
  | @cons c d _ _ hcd _ ih =>
    cases i with
    | zero =>
      cases ha
      exact ⟨d, rfl, hcd⟩
    | succ i => exact ih ha

theorem exists_left_of_forall₂ (h : List.Forall₂ R l more) : ∀ b ∈ more, ∃ a ∈ l, R a b :=
  exists_right_of_forall₂ h.flip

end

end DocTree
