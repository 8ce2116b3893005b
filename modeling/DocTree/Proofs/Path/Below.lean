import DocTree.Proofs.FileSystem.Landing
import DocTree.Settings

/-!
# Places below a directory

A place below a directory is a list of names, and its path takes them one after another. Different
places have different paths.
-/
namespace DocTree

namespace Path

/-- One component of a path that leads down: a name that an entry of a directory can have. -/
structure IsName (c : Text) : Prop where
  ne_nil : c ≠ []
  ne_here : c ≠ ['.']
  ne_up : c ≠ ['.', '.']
  notMem_slash : '/' ∉ c

instance (c : Text) : Decidable (IsName c) :=
  decidable_of_iff (c ≠ [] ∧ c ≠ ['.'] ∧ c ≠ ['.', '.'] ∧ '/' ∉ c)
    ⟨fun ⟨h₁, h₂, h₃, h₄⟩ => ⟨h₁, h₂, h₃, h₄⟩, fun ⟨h₁, h₂, h₃, h₄⟩ => ⟨h₁, h₂, h₃, h₄⟩⟩

/-- The parts of a path that is continued by another one, but those that are empty. -/
theorem parts_join_relative {p r : Text} (hp : p ≠ []) (hr : ¬ isAbsolute r) :
    (parts (join p r)).filter (!·.isEmpty) =
      (parts p).filter (!·.isEmpty) ++ (parts r).filter (!·.isEmpty) := by
  obtain ⟨front, hjoin, hfront⟩ := exists_join hp hr
  have hparts : (parts front).filter (!·.isEmpty) = (parts p).filter (!·.isEmpty) := by
    rcases hfront with rfl | rfl
    · rfl
    · simp [parts, Text.splitOn_append, Text.splitOn]
  rw [hjoin, parts, Text.splitOn_append, ← parts, ← parts, List.filter_append, hparts]

theorem parts_join {p c : Text} (hp : p ≠ []) (hc : '/' ∉ c) :
    (parts (join p c)).filter (!·.isEmpty) =
      (parts p).filter (!·.isEmpty) ++ [c].filter (!·.isEmpty) := by
  rw [parts_join_relative hp (not_isAbsolute_of_notMem hc)]
  rw [← Text.splitOn_of_notMem hc, ← parts]

def below (dir : Text) (place : List Text) : Text :=
  place.foldl join dir

@[simp] theorem below_nil (dir : Text) : below dir [] = dir := rfl

@[simp] theorem below_cons (dir name : Text) (rest : List Text) :
    below dir (name :: rest) = below (join dir name) rest := rfl

theorem below_concat (dir : Text) (place : List Text) (name : Text) :
    below dir (place ++ [name]) = join (below dir place) name := by
  simp [below]

theorem below_ne_nil {dir : Text} (h : dir ≠ []) (place : List Text) : below dir place ≠ [] := by
  induction place generalizing dir with
  | nil => exact h
  | cons name rest ih => exact ih (join_ne_nil h name)

theorem isAbsolute_below {dir : Text} (hdir : dir ≠ []) {place : List Text}
    (hnames : ∀ c ∈ place, IsName c) : isAbsolute (below dir place) = isAbsolute dir := by
  induction place generalizing dir with
  | nil => rfl
  | cons name rest ih =>
    rw [below_cons, ih (join_ne_nil hdir name) fun c hc => hnames c (by simp [hc]),
      isAbsolute_join hdir (not_isAbsolute_of_notMem (hnames name (by simp)).notMem_slash)]

/-- A path continued by a relative one begins as the path does with a slash at its end. -/
theorem join_eq (dir : Text) {c : Text} (hc : '/' ∉ c) : join dir c = join dir [] ++ c := by
  have hempty : ¬ isAbsolute [] := by simp [isAbsolute]
  unfold join
  rw [if_neg (not_isAbsolute_of_notMem hc), if_neg hempty]
  split <;> simp

theorem join_name_nil {dir c : Text} (hc : IsName c) :
    join (join dir c) [] = join dir c ++ ['/'] := by
  have hlast : (join dir c).getLast? ≠ some '/' := by
    rw [join_eq dir hc.notMem_slash, List.getLast?_append_of_ne_nil _ hc.ne_nil]
    exact fun h => hc.notMem_slash (List.mem_of_getLast? h)
  have hne : join dir c ≠ [] := by simp [join_eq dir hc.notMem_slash, hc.ne_nil]
  rw [join, if_neg (by simp [isAbsolute]), if_neg (by simp [hne, hlast])]

/-- Below a directory the names of a place stand between slashes. -/
theorem below_eq {dir : Text} {place : List Text} (hplace : place ≠ [])
    (hnames : ∀ c ∈ place, IsName c) :
    below dir place = join dir [] ++ List.intercalate ['/'] place := by
  induction place generalizing dir with
  | nil => exact absurd rfl hplace
  | cons c rest ih =>
    have hc := hnames c (by simp)
    cases rest with
    | nil => simp [join_eq dir hc.notMem_slash]
    | cons d rest =>
      rw [below_cons, ih (by simp) fun e he => hnames e (by simp [he]), join_name_nil hc,
        join_eq dir hc.notMem_slash, List.intercalate_cons_cons]
      simp

theorem steps_intercalate_names {names : List Text} (h : ∀ c ∈ names, IsName c) :
    steps (List.intercalate ['/'] names) = names := by
  rw [steps_intercalate fun c hc => (h c hc).notMem_slash, List.filter_eq_self]
  intro c hc
  simp [(h c hc).ne_nil, (h c hc).ne_here]

/-- Different places below a directory have different paths. -/
theorem below_injective {dir : Text} {place other : List Text} (hplace : place ≠ [])
    (hother : other ≠ []) (hnames : ∀ c ∈ place, IsName c) (hothers : ∀ c ∈ other, IsName c)
    (h : below dir place = below dir other) : place = other := by
  rw [below_eq hplace hnames, below_eq hother hothers] at h
  have hsteps := congrArg steps (List.append_cancel_left h)
  rwa [steps_intercalate_names hnames, steps_intercalate_names hothers] at hsteps

end Path

/-- An ending without a slash is the ending of a path if it is that of its last component. -/
theorem Settings.isMarkdown_join {s : Settings} (hslash : '/' ∉ s.extension) {dir name : Text}
    (hdir : dir ≠ []) (hname : '/' ∉ name) :
    s.isMarkdown (Path.join dir name) = s.isMarkdown name := by
  obtain ⟨front, hfront, -⟩ := Path.exists_join hdir (Path.not_isAbsolute_of_notMem hname)
  rw [isMarkdown, isMarkdown, Bool.eq_iff_iff, List.isSuffixOf_iff_suffix,
    List.isSuffixOf_iff_suffix, hfront]
  constructor
  · intro hsuffix
    rcases List.suffix_or_suffix_of_suffix hsuffix (List.suffix_append front ('/' :: name)) with
      hshort | hlong
    · rcases List.suffix_cons_iff.mp hshort with hall | hshort
      · exact absurd (by simp [hall]) hslash
      · exact hshort
    · exact absurd (hlong.subset (by simp)) hslash
  · intro hsuffix
    exact hsuffix.trans ((List.suffix_cons '/' name).trans (List.suffix_append front _))

end DocTree
