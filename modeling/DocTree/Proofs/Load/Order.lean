import DocTree.Listing
import Mathlib.Data.Char
import Mathlib.Data.List.Lex
import Mathlib.Data.List.Sort
import Mathlib.Data.Prod.Lex

/-!
# Listing order

Names are listed in a total order, first regardless of case and then as they are written. Sorting
brings them into it, whatever order they come in.
-/
namespace DocTree

/-- Texts are compared character by character. -/
theorem Text.le_iff {s t : Text} : Text.le s t ↔ s ≤ t := by
  rw [← not_lt]
  induction s generalizing t with
  | nil =>
    cases t <;> simp [Text.le]
  | cons a s ih =>
    cases t with
    | nil => simp [Text.le]
    | cons b t =>
      rw [Text.le, List.cons_lt_cons_iff]
      by_cases h : a = b
      · subst h
        simp [ih]
      · have hlt : a.toNat < b.toNat ↔ ¬ b < a := by
          rw [not_lt]
          exact (lt_iff_le_and_ne.trans (and_iff_left h) : a < b ↔ a ≤ b)
        simp [h, hlt, Ne.symm h]

namespace Listing

/-- A pair is before another if it is in the order of pairs. -/
theorem before_iff {a b : Text × Text} : before a b ↔ toLex a ≤ toLex b := by
  rw [Prod.Lex.toLex_le_toLex, before]
  by_cases h : a.1 = b.1
  · simp [h, Text.le_iff]
  · simp [h, Text.le_iff, lt_iff_le_and_ne]

def Sooner (a b : Text) : Prop :=
  before (Text.fold a, a) (Text.fold b, b)

instance : DecidableRel Sooner :=
  fun _ _ => inferInstanceAs (Decidable (_ = true))

theorem sooner_iff {a b : Text} :
    Sooner a b ↔ toLex (Text.fold a, a) ≤ toLex (Text.fold b, b) :=
  before_iff

instance : Std.Total Sooner :=
  ⟨fun a b => by
    rw [sooner_iff, sooner_iff]
    exact le_total _ _⟩

instance : IsTrans Text Sooner :=
  ⟨fun a b c => by
    rw [sooner_iff, sooner_iff, sooner_iff]
    exact le_trans⟩

instance : Std.Antisymm Sooner :=
  ⟨fun a b hab hba => by
    rw [sooner_iff] at hab hba
    exact (Prod.mk.inj (toLex.injective (le_antisymm hab hba))).2⟩

theorem insert_eq (a : Text × Text) (l : List (Text × Text)) :
    insert a l = l.orderedInsert (fun x y => before x y) a := by
  induction l with
  | nil => rfl
  | cons b l ih => rw [insert, ih, List.orderedInsert_cons]

theorem sort_eq (names : List Text) : sort names = names.insertionSort Sooner := by
  have hsort : ∀ l : List (Text × Text),
      l.foldr insert [] = l.insertionSort fun x y => before x y := by
    intro l
    induction l with
    | nil => rfl
    | cons a l ih => rw [List.foldr_cons, ih, insert_eq, List.insertionSort_cons]
  have hkey := List.map_insertionSort Sooner (fun x y => before x y = true)
    (fun name => (Text.fold name, name)) names fun _ _ _ _ => Iff.rfl
  rw [sort, hsort, ← hkey, List.map_map]
  exact List.map_id _

/-- Sorting neither adds nor drops a name. -/
theorem sort_perm (names : List Text) : (sort names).Perm names := by
  rw [sort_eq]
  exact List.perm_insertionSort _ _

/-- Sorting brings names into the order of the listing. -/
theorem pairwise_sort (names : List Text) : (sort names).Pairwise Sooner := by
  rw [sort_eq]
  exact List.pairwise_insertionSort _ _

/-- A name that is looked at is one of the directory's, not that of its own document, and leads
down. -/
theorem mem_sort_visible {s : Settings} {names : List Text} {name : Text} :
    name ∈ sort (visible s names) ↔
      name ∈ names ∧ name ≠ s.rootDocument ∧ name.head? ≠ some '.' := by
  rw [(sort_perm _).mem_iff, visible, List.mem_filter]
  simp

theorem nodup_sort_visible {s : Settings} {names : List Text} (h : names.Nodup) :
    (sort (visible s names)).Nodup :=
  (sort_perm _).nodup_iff.mpr (h.sublist List.filter_sublist)

/-- Names that are looked at in two directories stand in the same order if they are the same. -/
theorem filter_sort_visible_congr {s : Settings} {names names' : List Text} (h : names.Nodup)
    (h' : names'.Nodup) {keep : Text → Bool}
    (hmem : ∀ name, name ≠ s.rootDocument → name.head? ≠ some '.' → keep name →
      (name ∈ names ↔ name ∈ names')) :
    (sort (visible s names)).filter keep = (sort (visible s names')).filter keep := by
  have hperm : ((sort (visible s names)).filter keep).Perm ((sort (visible s names')).filter keep) := by
    rw [List.perm_ext_iff_of_nodup ((nodup_sort_visible h).filter _)
      ((nodup_sort_visible h').filter _)]
    intro name
    rw [List.mem_filter, List.mem_filter, mem_sort_visible, mem_sort_visible]
    constructor
    · rintro ⟨⟨hname, hroot, hhidden⟩, hkeep⟩
      exact ⟨⟨(hmem name hroot hhidden hkeep).mp hname, hroot, hhidden⟩, hkeep⟩
    · rintro ⟨⟨hname, hroot, hhidden⟩, hkeep⟩
      exact ⟨⟨(hmem name hroot hhidden hkeep).mpr hname, hroot, hhidden⟩, hkeep⟩
  exact hperm.eq_of_pairwise' ((pairwise_sort _).filter _) ((pairwise_sort _).filter _)

end Listing

end DocTree
