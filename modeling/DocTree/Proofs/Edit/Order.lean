import DocTree.Edit
import Mathlib.Data.List.Sort

/-!
# The order of edits

Edits are carried out from the last start upward, those of one start in the order they come in.
Where no two of them reach into each other, and of a range and a place at one line the range comes
first, each edit then lies above all that were carried out before it.
-/
namespace DocTree

namespace Span

theorem start_le_past (s : Span) : s.start ≤ s.past := by
  cases h : s.stop with
  | none => simp [past, h]
  | some stop => simpa [past, h] using s.start_le_stop stop h

/-- The span takes no line away. -/
def IsPlace (s : Span) : Prop :=
  s.past = s.start

instance (s : Span) : Decidable s.IsPlace :=
  inferInstanceAs (Decidable (s.past = s.start))

/-- Neither span reaches into the other. Two ranges have no line in common, and a place may touch a
range at either end but does not lie strictly inside it. -/
def Apart (s t : Span) : Prop :=
  s.past ≤ t.start ∨ t.past ≤ s.start

instance (s t : Span) : Decidable (s.Apart t) :=
  inferInstanceAs (Decidable (s.past ≤ t.start ∨ t.past ≤ s.start))

theorem Apart.symm {s t : Span} (h : s.Apart t) : t.Apart s :=
  Or.symm h

end Span

namespace Edit

/-- The second edit lies above the first: what the first does leaves its lines alone. -/
def Above (e f : Edit) : Prop :=
  f.span.past ≤ e.span.start

/-- The two edits can be carried out one after the other: they are apart, and a place does not come
before a range at the same line. -/
def Follows (e f : Edit) : Prop :=
  e.span.Apart f.span ∧ (e.span.IsPlace → f.span.start = e.span.start → f.span.IsPlace)

theorem Follows.above {e f : Edit} (h : e.Follows f) (hs : f.span.start ≤ e.span.start) :
    e.Above f := by
  obtain ⟨hapart, hplace⟩ := h
  cases hapart with
  | inl hle =>
    have := e.span.start_le_past
    have hf : f.span.IsPlace := hplace (by unfold Span.IsPlace; omega) (by omega)
    unfold Span.IsPlace at hf
    unfold Above
    omega
  | inr hle => exact hle

theorem Follows.above_symm {e f : Edit} (h : e.Follows f) (hs : e.span.start < f.span.start) :
    f.Above e := by
  cases h.1 with
  | inl hle => exact hle
  | inr hle =>
    have := f.span.start_le_past
    omega

theorem insertByStart_perm (e : Edit) (edits : List Edit) :
    (insertByStart e edits).Perm (e :: edits) := by
  induction edits with
  | nil => exact List.Perm.refl _
  | cons f rest ih =>
    rw [insertByStart]
    split
    · exact List.Perm.refl _
    · exact (ih.cons f).trans (List.Perm.swap e f rest)

/-- No edit is lost or repeated. -/
theorem fromLast_perm (edits : List Edit) : (fromLast edits).Perm edits := by
  induction edits with
  | nil => exact List.Perm.refl _
  | cons e rest ih => exact (insertByStart_perm e (fromLast rest)).trans (ih.cons e)

theorem insertByStart_above {e : Edit} {edits : List Edit} (he : ∀ f ∈ edits, e.Follows f)
    (h : edits.Pairwise Above) : (insertByStart e edits).Pairwise Above := by
  induction edits with
  | nil => simp [insertByStart]
  | cons f rest ih =>
    obtain ⟨hf, hrest⟩ := List.pairwise_cons.mp h
    rw [insertByStart]
    split
    · rename_i hle
      refine List.pairwise_cons.mpr ⟨?_, h⟩
      intro g hg
      rcases List.mem_cons.mp hg with rfl | hg
      · exact (he g (by simp)).above hle
      · have : g.span.past ≤ f.span.start := hf g hg
        unfold Above
        omega
    · rename_i hlt
      refine List.pairwise_cons.mpr ⟨?_, ih (fun g hg => he g (by simp [hg])) hrest⟩
      intro g hg
      rcases List.mem_cons.mp ((insertByStart_perm e rest).mem_iff.mp hg) with rfl | hg
      · exact (he f (by simp)).above_symm (by omega)
      · exact hf g hg

/-- Each edit lies above those that are carried out before it. -/
theorem fromLast_above {edits : List Edit} (h : edits.Pairwise Follows) :
    (fromLast edits).Pairwise Above := by
  induction edits with
  | nil => simp [fromLast]
  | cons e rest ih =>
    obtain ⟨he, hrest⟩ := List.pairwise_cons.mp h
    refine insertByStart_above ?_ (ih hrest)
    intro f hf
    exact he f ((fromLast_perm rest).mem_iff.mp hf)

def Leads (e f : Edit) : Prop :=
  f.span.start ≤ e.span.start

instance : DecidableRel Leads :=
  fun e f => inferInstanceAs (Decidable (f.span.start ≤ e.span.start))

instance : Std.Total Leads :=
  ⟨fun e f => Nat.le_total f.span.start e.span.start⟩

instance : IsTrans Edit Leads :=
  ⟨fun _ _ _ h h' => Nat.le_trans h' h⟩

theorem insertByStart_eq (e : Edit) (edits : List Edit) :
    insertByStart e edits = edits.orderedInsert Leads e := by
  induction edits with
  | nil => rfl
  | cons f rest ih =>
    rw [insertByStart, ih, List.orderedInsert_cons]
    rfl

theorem fromLast_eq (edits : List Edit) : fromLast edits = edits.insertionSort Leads := by
  induction edits with
  | nil => rfl
  | cons e rest ih =>
    rw [List.insertionSort_cons, ← ih, ← insertByStart_eq]
    rfl

theorem pairwise_fromLast (edits : List Edit) : (fromLast edits).Pairwise Leads := by
  rw [fromLast_eq]
  exact List.pairwise_insertionSort _ _

/-- The second edit is above the first, or the first takes no line away: the lines of the second are
there yet if it comes later. -/
def LeavesRoom (e f : Edit) : Prop :=
  e.Above f ∨ e.span.IsPlace

/-- Edits that do not reach into each other leave room to those that come after them. -/
theorem fromLast_leavesRoom {edits : List Edit}
    (h : edits.Pairwise fun e f => e.span.Apart f.span) :
    (fromLast edits).Pairwise LeavesRoom := by
  have hapart := (fromLast_perm edits).symm.pairwise h fun hef => hef.symm
  refine ((pairwise_fromLast edits).and hapart).imp ?_
  rintro e f ⟨hleads, hef⟩
  unfold Leads at hleads
  have hle := e.span.start_le_past
  cases hef with
  | inl hbelow =>
    right
    unfold Span.IsPlace
    omega
  | inr habove => exact .inl habove

/-- An edit goes behind those that start after it. -/
theorem insertByStart_append_right {e : Edit} {edits : List Edit} (rest : List Edit)
    (h : ∀ f ∈ edits, e.span.start < f.span.start) :
    insertByStart e (edits ++ rest) = edits ++ insertByStart e rest := by
  induction edits with
  | nil => rfl
  | cons f edits ih =>
    have hf : ¬ f.span.start ≤ e.span.start := Nat.not_le.mpr (h f (by simp))
    rw [List.cons_append, insertByStart, if_neg hf, ih (fun g hg => h g (by simp [hg]))]
    rfl

/-- An edit goes before those that start no later. -/
theorem insertByStart_append_left {e : Edit} {rest : List Edit} (edits : List Edit)
    (h : ∀ f ∈ rest, f.span.start ≤ e.span.start) :
    insertByStart e (edits ++ rest) = insertByStart e edits ++ rest := by
  induction edits with
  | nil =>
    cases rest with
    | nil => rfl
    | cons f rest => exact if_pos (h f (by simp))
  | cons f edits ih =>
    rw [List.cons_append, insertByStart, ih, insertByStart]
    split <;> rfl

/-- First come the edits that start after a line, then those that start there, in the order in
which they were given, then those that start before it. -/
theorem fromLast_split (edits : List Edit) (k : Nat) :
    fromLast edits = fromLast (edits.filter (k < ·.span.start)) ++
      (edits.filter (·.span.start = k) ++ fromLast (edits.filter (·.span.start < k))) := by
  induction edits with
  | nil => rfl
  | cons e rest ih =>
    have hbefore : ∀ f ∈ fromLast (rest.filter (·.span.start < k)), f.span.start < k := by
      intro f hf
      simpa using (List.mem_filter.mp ((fromLast_perm _).mem_iff.mp hf)).2
    have hat : ∀ f ∈ rest.filter (·.span.start = k), f.span.start = k := by
      intro f hf
      simpa using (List.mem_filter.mp hf).2
    have hafter : ∀ f ∈ fromLast (rest.filter (k < ·.span.start)), k < f.span.start := by
      intro f hf
      simpa using (List.mem_filter.mp ((fromLast_perm _).mem_iff.mp hf)).2
    have hcons : ∀ rest, fromLast (e :: rest) = insertByStart e (fromLast rest) := fun _ => rfl
    rw [hcons, ih]
    rcases Nat.lt_trichotomy e.span.start k with hlt | heq | hgt
    · rw [List.filter_cons_of_neg (by simp; omega), List.filter_cons_of_neg (by simp; omega),
        List.filter_cons_of_pos (by simpa using hlt), hcons,
        insertByStart_append_right _ (fun f hf => hlt.trans (hafter f hf)),
        insertByStart_append_right _ (fun f hf => hlt.trans_eq (hat f hf).symm)]
    · rw [List.filter_cons_of_neg (by simp; omega), List.filter_cons_of_pos (by simpa using heq),
        List.filter_cons_of_neg (by simp; omega),
        insertByStart_append_right _ (fun f hf => heq.trans_lt (hafter f hf))]
      refine congrArg _ (insertByStart_append_left [] ?_)
      intro f hf
      rcases List.mem_append.mp hf with hf | hf
      · exact ((hat f hf).trans heq.symm).le
      · exact ((hbefore f hf).trans_eq heq.symm).le
    · rw [List.filter_cons_of_pos (by simpa using hgt), List.filter_cons_of_neg (by simp; omega),
        List.filter_cons_of_neg (by simp; omega), hcons]
      refine insertByStart_append_left _ ?_
      intro f hf
      rcases List.mem_append.mp hf with hf | hf
      · exact ((hat f hf).trans_lt hgt).le
      · exact ((hbefore f hf).trans hgt).le

/-- Two edits of different starts are carried out in the same order whichever comes first. -/
theorem fromLast_swap {e f : Edit} (h : e.span.start ≠ f.span.start) (edits more : List Edit) :
    fromLast (edits ++ e :: f :: more) = fromLast (edits ++ f :: e :: more) := by
  rw [fromLast_split (edits ++ e :: f :: more) e.span.start,
    fromLast_split (edits ++ f :: e :: more) e.span.start]
  simp [List.filter_append, List.filter_cons, h.symm]

end Edit

end DocTree
