import DocTree.Proofs.Path.Below
import Mathlib.Data.List.TakeWhile

/-!
# Where relative paths lead

A link is followed from the directory of the file it stands in. Whether it leads to a target is a
matter of normal forms, that is of the places that paths name and of the slashes they begin with. The
way from one place to another leads there from the place it starts at, and from no other one below
the root.
-/
namespace DocTree.Path

def absolute (cwd : List Text) (p : Text) : Text :=
  normal (join ('/' :: List.intercalate ['/'] cwd) p)

/-- Followed from the directory of a file, a link leads to a target, as far as the spelling goes. -/
def Leads (cwd : List Text) (file link target : Text) : Prop :=
  absolute cwd (join (dirName file) link) = absolute cwd target

instance (cwd : List Text) (file link target : Text) : Decidable (Leads cwd file link target) :=
  inferInstanceAs (Decidable (_ = _))

def up : Text := ['.', '.']

section

variable {p q : Text}

theorem isAbsolute_iff : isAbsolute p ↔ root p ≠ [] := by
  cases p with
  | nil => simp [isAbsolute, root]
  | cons c p =>
    by_cases hc : c = '/'
    · subst hc
      rw [root.eq_def]
      split <;> simp_all [isAbsolute]
    · simp [isAbsolute, root, hc]

/-- Behind anything but a slash it does not matter how a path goes on. -/
theorem root_append (h : ∃ c ∈ p, c ≠ '/') (q : Text) : root (p ++ q) = root p := by
  obtain ⟨c, hc, hne⟩ := h
  match p with
  | [] => cases hc
  | [a] =>
    have ha : a ≠ '/' := by
      rintro rfl
      exact hne (List.mem_singleton.mp hc)
    simp [root, ha]
  | [a, b] =>
    by_cases ha : a = '/'
    · have hb : b ≠ '/' := by
        rintro rfl
        simp_all
      simp [root, ha, hb]
    · simp [root, ha]
  | a :: b :: d :: p =>
    by_cases ha : a = '/'
    · by_cases hb : b = '/'
      · by_cases hd : d = '/' <;> simp [root, ha, hb, hd]
      · simp [root, ha, hb]
    · simp [root, ha]

/-- Behind slashes it matters only whether there are more of them. -/
theorem root_replicate_append (n : Nat) (hq : ¬ isAbsolute q) :
    root (List.replicate n '/' ++ q) = root (List.replicate n '/') := by
  cases q with
  | nil => rw [List.append_nil]
  | cons c q =>
    have hc : c ≠ '/' := by
      rintro rfl
      exact hq rfl
    match n with
    | 0 => simp [root, hc]
    | 1 => simp [root, hc]
    | 2 => simp [root, List.replicate, hc]
    | n + 3 => simp [root, List.replicate]

theorem exists_ne_or_replicate (c : Char) (p : Text) :
    (∃ d ∈ p, d ≠ c) ∨ p = List.replicate p.length c := by
  by_cases h : ∃ d ∈ p, d ≠ c
  · exact Or.inl h
  · exact Or.inr (List.eq_replicate_iff.mpr ⟨rfl, by simpa using h⟩)

/-- A path continued by a relative one begins with the same slashes. -/
theorem root_join (hp : p ≠ []) (hq : ¬ isAbsolute q) : root (join p q) = root p := by
  rw [join, if_neg hq]
  rcases exists_ne_or_replicate '/' p with hsome | hall
  · split <;> exact root_append hsome _
  · have hlast : p.isEmpty || p.getLast? == some '/' := by
      rw [hall, List.getLast?_replicate]
      simp [hp]
    rw [if_pos hlast, hall]
    exact root_replicate_append _ hq

end

section

variable {p x : Text}

theorem steps_append_slashes (p : Text) (n : Nat) :
    steps (p ++ List.replicate n '/') = steps p := by
  induction n with
  | zero => simp
  | succ n ih =>
    rw [List.replicate_succ', ← List.append_assoc, steps_append, ih, steps_nil, List.append_nil]

/-- The directory of a file is the path before its name, but for slashes at the end. -/
theorem exists_slashes_dirName (hp : p ≠ []) (hx : '/' ∉ x) :
    ∃ n, join p [] = dirName (join p x) ++ List.replicate n '/' ∧
      (n = 0 ∨ ∃ c ∈ dirName (join p x), c ≠ '/') := by
  obtain ⟨front, hfront, -⟩ := exists_join (q := []) hp (by simp [isAbsolute])
  have hhead : ((join p x).reverse.dropWhile (· != '/')).reverse = join p [] := by
    rw [join_eq p hx, List.reverse_append, List.dropWhile_append_of_pos, hfront]
    · simp
    · intro c hc
      have : c ≠ '/' := by
        rintro rfl
        exact hx (List.mem_reverse.mp hc)
      simpa using this
  rw [dirName, hhead]
  split
  · exact ⟨0, by simp, Or.inl rfl⟩
  · -- What is cut off are slashes, so what is not a slash is left.
    rename_i hall
    obtain ⟨c, hc, hne⟩ : ∃ c ∈ join p [], c ≠ '/' := by simpa using hall
    obtain ⟨n, hn⟩ : ∃ n, (join p []).reverse.takeWhile (· == '/') = List.replicate n '/' :=
      ⟨_, List.eq_replicate_iff.mpr ⟨rfl, fun d hd => by simpa using List.mem_takeWhile_imp hd⟩⟩
    have hsplit : join p [] =
        ((join p []).reverse.dropWhile (· == '/')).reverse ++ List.replicate n '/' := by
      have h := List.takeWhile_append_dropWhile (p := (· == '/')) (l := (join p []).reverse)
      rw [hn] at h
      have h := congrArg List.reverse h
      rw [List.reverse_append, List.reverse_reverse, List.reverse_replicate] at h
      exact h.symm
    refine ⟨n, hsplit, Or.inr ⟨c, ?_, hne⟩⟩
    rw [hsplit] at hc
    rcases List.mem_append.mp hc with hc | hc
    · exact hc
    · exact absurd (List.mem_replicate.mp hc).2 hne

theorem dirName_join_ne_nil (hp : p ≠ []) (hx : '/' ∉ x) : dirName (join p x) ≠ [] := by
  obtain ⟨n, hn, hend⟩ := exists_slashes_dirName hp hx
  rcases hend with rfl | ⟨c, hc, -⟩
  · have hdir : join p [] = dirName (join p x) := by simpa using hn
    rw [← hdir]
    exact join_ne_nil hp []
  · exact List.ne_nil_of_mem hc

theorem steps_dirName_join (hp : p ≠ []) (hx : '/' ∉ x) :
    steps (dirName (join p x)) = steps p := by
  obtain ⟨n, hn, -⟩ := exists_slashes_dirName hp hx
  have hsteps : steps (join p []) = steps p := by
    rw [steps_join (by simp [isAbsolute]), steps_nil, List.append_nil]
  rw [← hsteps, hn, steps_append_slashes]

theorem root_dirName_join (hp : p ≠ []) (hx : '/' ∉ x) :
    root (dirName (join p x)) = root p := by
  obtain ⟨n, hn, hend⟩ := exists_slashes_dirName hp hx
  rw [← root_join hp (q := []) (by simp [isAbsolute]), hn]
  rcases hend with rfl | hsome
  · simp
  · exact (root_append hsome _).symm

end

section

variable {cwd start : List Text} {p q x c : Text}

theorem walk_of_ne_up {absolute : Bool} (hc : c ≠ up) : walk absolute start c = start ++ [c] :=
  if_neg hc

theorem walk_up (h : ∀ d ∈ start, IsName d) : walk true start up = start.dropLast := by
  have hup : up = ['.', '.'] := rfl
  rw [walk, if_pos hup]
  cases hlast : start.getLast? with
  | none => simp [List.getLast?_eq_none_iff.mp hlast]
  | some last => exact if_neg (h last (List.mem_of_getLast? hlast)).ne_up

theorem foldl_walk_up (h : ∀ d ∈ start, IsName d) (n : Nat) :
    (List.replicate n up).foldl (walk true) start = start.take (start.length - n) := by
  induction n generalizing start with
  | zero => simp
  | succ n ih =>
    rw [List.replicate_succ, List.foldl_cons, walk_up h,
      ih fun d hd => h d (List.dropLast_subset _ hd), List.length_dropLast, List.dropLast_eq_take,
      List.take_take]
    congr 1
    omega

theorem foldl_walk_names {steps : List Text} (h : ∀ d ∈ steps, IsName d) :
    steps.foldl (walk true) start = start ++ steps := by
  induction steps generalizing start with
  | nil => simp
  | cons d steps ih =>
    rw [List.foldl_cons, walk_of_ne_up (h d (by simp)).ne_up, ih fun e he => h e (by simp [he])]
    simp

theorem isName_foldl_walk {steps : List Text} (hstart : ∀ d ∈ start, IsName d)
    (hsteps : ∀ d ∈ steps, d = up ∨ IsName d) : ∀ d ∈ steps.foldl (walk true) start, IsName d := by
  induction steps generalizing start with
  | nil => exact hstart
  | cons e steps ih =>
    apply ih
    · rcases hsteps e (by simp) with rfl | he
      · rw [walk_up hstart]
        exact fun d hd => hstart d (List.dropLast_subset _ hd)
      · rw [walk_of_ne_up he.ne_up]
        intro d hd
        rcases List.mem_append.mp hd with hd | hd
        · exact hstart d hd
        · rwa [List.mem_singleton.mp hd]
    · exact fun d hd => hsteps d (by simp [hd])

theorem isName_of_mem_steps (h : c ∈ steps p) : c = up ∨ IsName c := by
  by_cases hup : c = up
  · exact Or.inl hup
  · have hne : c ≠ [] ∧ c ≠ ['.'] := by simpa using (List.mem_filter.mp h).2
    exact Or.inr ⟨hne.1, hne.2, hup, notMem_of_mem_steps h⟩

/-- Only names lead to the place of a path. -/
theorem isName_place (hcwd : isAbsolute p ∨ ∀ d ∈ cwd, IsName d) : ∀ d ∈ place cwd p, IsName d := by
  apply isName_foldl_walk
  · split
    · simp
    · rename_i h
      exact hcwd.resolve_left h
  · exact fun d hd => isName_of_mem_steps hd

theorem place_join (hp : p ≠ []) (hq : ¬ isAbsolute q) :
    place cwd (join p q) = (steps q).foldl (walk true) (place cwd p) := by
  rw [place, steps_join hq, isAbsolute_join hp hq, List.foldl_append]
  rfl

theorem place_join_name (hp : p ≠ []) (hx : IsName x) :
    place cwd (join p x) = place cwd p ++ [x] := by
  have hsteps : steps x = [x] := by
    rw [steps_of_name hx.notMem_slash, if_neg (by simp [hx.ne_nil, hx.ne_here])]
  rw [place_join hp (not_isAbsolute_of_notMem hx.notMem_slash), hsteps, List.foldl_cons,
    walk_of_ne_up hx.ne_up, List.foldl_nil]

/-- The place of a path hangs on its steps and on whether it begins with a slash. -/
theorem place_congr (hsteps : steps p = steps q) (hroot : root p = root q) :
    place cwd p = place cwd q := by
  have habsolute : isAbsolute p = isAbsolute q := by
    rw [Bool.eq_iff_iff, isAbsolute_iff, isAbsolute_iff, hroot]
  rw [place, place, hsteps, habsolute]

theorem place_dirName_join (hp : p ≠ []) (hx : '/' ∉ x) :
    place cwd (dirName (join p x)) = place cwd p :=
  place_congr (steps_dirName_join hp hx) (root_dirName_join hp hx)

/-- The normal form of a path is made of the slashes it begins with and its place. -/
theorem absolute_eq (hcwd : isAbsolute p ∨ ∀ d ∈ cwd, IsName d) :
    absolute cwd p =
      (if isAbsolute p then root p else ['/']) ++ List.intercalate ['/'] (place cwd p) := by
  by_cases hp : isAbsolute p
  · have hne : root p ++ List.intercalate ['/'] (place cwd p) ≠ [] := by
      simp [isAbsolute_iff.mp hp]
    rw [absolute, join, if_pos hp, if_pos hp, normal, hp]
    rw [place, if_pos hp] at hne ⊢
    exact if_neg hne
  · have hnames := hcwd.resolve_left hp
    have hcwdRoot : root ('/' :: List.intercalate ['/'] cwd) = ['/'] := by
      have hrelative : ¬ isAbsolute (List.intercalate ['/'] cwd) :=
        isAbsolute_intercalate fun d hd => ⟨(hnames d hd).ne_nil, (hnames d hd).notMem_slash⟩
      exact root_replicate_append 1 hrelative
    have hcwdSteps : steps ('/' :: List.intercalate ['/'] cwd) = cwd :=
      (steps_append [] _).trans (steps_intercalate_names hnames)
    rw [absolute, normal, root_join (List.cons_ne_nil _ _) hp, hcwdRoot, steps_join hp, hcwdSteps,
      isAbsolute_join (List.cons_ne_nil _ _) hp, List.foldl_append, if_neg hp, place, if_neg hp]
    have hstart : cwd.foldl (walk true) [] = cwd := foldl_walk_names hnames
    have habsolute : isAbsolute ('/' :: List.intercalate ['/'] cwd) = true := rfl
    rw [habsolute, hstart, if_neg (by simp)]

/-- Paths that begin alike have one normal form exactly if they have one place. -/
theorem absolute_eq_iff (hcwd : isAbsolute q ∨ ∀ d ∈ cwd, IsName d) (hroot : root p = root q) :
    absolute cwd p = absolute cwd q ↔ place cwd p = place cwd q := by
  have habsolute : isAbsolute p = isAbsolute q := by
    rw [Bool.eq_iff_iff, isAbsolute_iff, isAbsolute_iff, hroot]
  have hcwd' : isAbsolute p ∨ ∀ d ∈ cwd, IsName d := by rwa [habsolute]
  rw [absolute_eq hcwd', absolute_eq hcwd, habsolute, hroot]
  constructor
  · intro h
    have hsteps := congrArg steps (List.append_cancel_left h)
    rwa [steps_intercalate_names (isName_place hcwd'),
      steps_intercalate_names (isName_place hcwd)] at hsteps
  · intro h
    rw [h]

end

theorem common_append (above start target : List Text) :
    common (above ++ start) (above ++ target) = above.length + common start target := by
  induction above with
  | nil => simp
  | cons c above ih =>
    simp only [List.cons_append, common, if_true, ih, List.length_cons]
    omega

theorem common_eq_zero {start target : List Text} {y : Text} (h : start.head? ≠ some y) :
    common start (y :: target) = 0 := by
  cases start with
  | nil => rfl
  | cons c start =>
    rw [common, if_neg]
    rintro rfl
    exact h rfl

/-- The way to a name beside the next step down leads up first. -/
theorem way_eq {above rest : List Text} {y : Text} (h : rest.head? ≠ some y) :
    way (above ++ rest) (above ++ [y]) = List.replicate rest.length up ++ [y] := by
  have hcommon : common (above ++ rest) (above ++ [y]) = above.length := by
    rw [common_append, common_eq_zero h, Nat.add_zero]
  rw [way, hcommon]
  simp [up]

def wayTo (n : Nat) (y : Text) : Text :=
  List.intercalate ['/'] (List.replicate n up ++ [y])

theorem steps_wayTo {y : Text} (hy : IsName y) (n : Nat) :
    steps (wayTo n y) = List.replicate n up ++ [y] ∧ ¬ isAbsolute (wayTo n y) := by
  have hpart : ∀ c ∈ List.replicate n up ++ [y], (c ≠ [] ∧ c ≠ ['.']) ∧ '/' ∉ c := by
    intro c hc
    rcases List.mem_append.mp hc with hc | hc
    · rw [(List.mem_replicate.mp hc).2]
      decide
    · rw [List.mem_singleton.mp hc]
      exact ⟨⟨hy.ne_nil, hy.ne_here⟩, hy.notMem_slash⟩
  constructor
  · rw [wayTo, steps_intercalate fun c hc => (hpart c hc).2, List.filter_eq_self]
    intro c hc
    simpa using (hpart c hc).1
  · exact isAbsolute_intercalate fun c hc => ⟨(hpart c hc).1.1, (hpart c hc).2⟩

theorem wayTo_ne_here {y : Text} (hy : IsName y) (n : Nat) : wayTo n y ≠ ['.'] := by
  intro h
  have hsteps := (steps_wayTo hy n).1
  rw [h] at hsteps
  exact absurd hsteps.symm (by simp [steps, parts, Text.splitOn])

def Beside (a b : Text) : Prop :=
  ∃ p x y, p ≠ [] ∧ IsName x ∧ IsName y ∧ x ≠ y ∧ a = join p x ∧ b = join p y

theorem Beside.symm {a b : Text} (h : Beside a b) : Beside b a := by
  obtain ⟨p, x, y, hp, hx, hy, hne, rfl, rfl⟩ := h
  exact ⟨p, y, x, hp, hy, hx, hne.symm, rfl, rfl⟩

theorem Beside.isAbsolute_eq {a b : Text} (h : Beside a b) : isAbsolute a = isAbsolute b := by
  obtain ⟨p, x, y, hp, hx, hy, -, rfl, rfl⟩ := h
  rw [isAbsolute_join hp (not_isAbsolute_of_notMem hx.notMem_slash),
    isAbsolute_join hp (not_isAbsolute_of_notMem hy.notMem_slash)]

/-- Beside a file, or beside the directory that the file is in. -/
def Near (file target : Text) : Prop :=
  Beside file target ∨ ∃ p x, IsName x ∧ Beside p target ∧ file = join p x

theorem Beside.ne_nil {a b : Text} (h : Beside a b) : b ≠ [] := by
  obtain ⟨p, x, y, hp, -, -, -, -, rfl⟩ := h
  exact join_ne_nil hp y

theorem Near.ne_nil {file target : Text} (h : Near file target) : target ≠ [] := by
  rcases h with hbeside | ⟨p, x, -, hbeside, -⟩
  · exact hbeside.ne_nil
  · exact hbeside.ne_nil

theorem Near.isAbsolute_eq {file target : Text} (h : Near file target) :
    isAbsolute file = isAbsolute target := by
  rcases h with hbeside | ⟨p, x, hx, hbeside, rfl⟩
  · exact hbeside.isAbsolute_eq
  · obtain ⟨q, a, y, hq, -, -, -, rfl, -⟩ := id hbeside
    rw [← hbeside.isAbsolute_eq,
      isAbsolute_join (join_ne_nil hq a) (not_isAbsolute_of_notMem hx.notMem_slash)]

/-- Where the place of a file and that of a target part: `above` leads to the directory of the
target, and on from there `rest` to that of the file. -/
structure Parting (cwd : List Text) (file target : Text) (above rest : List Text) (x y : Text) :
    Prop where
  place_dirName : place cwd (dirName file) = above ++ rest
  place_file : place cwd file = above ++ (rest ++ [x])
  place_target : place cwd target = above ++ [y]
  head_ne : (rest ++ [x]).head? ≠ some y
  isName : IsName y
  dirName_ne : dirName file ≠ []
  root_eq : root (dirName file) = root target

theorem Near.exists_parting {file target : Text} (h : Near file target) (cwd : List Text) :
    ∃ above rest x y, Parting cwd file target above rest x y := by
  rcases h with ⟨p, x, y, hp, hx, hy, hne, rfl, rfl⟩ | ⟨_, x, hx, hbeside, rfl⟩
  · have hroot : root (join p y) = root p :=
      root_join hp (not_isAbsolute_of_notMem hy.notMem_slash)
    refine ⟨place cwd p, [], x, y, ?_, place_join_name hp hx, place_join_name hp hy, by simpa using hne,
      hy, dirName_join_ne_nil hp hx.notMem_slash, ?_⟩
    · rw [place_dirName_join hp hx.notMem_slash, List.append_nil]
    · rw [root_dirName_join hp hx.notMem_slash, hroot]
  · obtain ⟨p, a, y, hp, ha, hy, hne, rfl, rfl⟩ := hbeside
    have hdir := join_ne_nil hp a
    have hroot : ∀ {c}, IsName c → root (join p c) = root p := fun hc =>
      root_join hp (not_isAbsolute_of_notMem hc.notMem_slash)
    refine ⟨place cwd p, [a], x, y, ?_, ?_, place_join_name hp hy, by simpa using hne, hy,
      dirName_join_ne_nil hdir hx.notMem_slash, ?_⟩
    · rw [place_dirName_join hdir hx.notMem_slash, place_join_name hp ha]
    · rw [place_join_name hdir hx, place_join_name hp ha, List.append_assoc]
    · rw [root_dirName_join hdir hx.notMem_slash, hroot ha, hroot hy]

namespace Parting

variable {cwd above rest : List Text} {file target x y : Text}

/-- The path of the target from a place on the way to the file, or from the file. -/
theorem relative_eq (h : Parting cwd file target above rest x y) {start : Text} {more : List Text}
    (hstart : place cwd start = above ++ more) (hmore : more.head? ≠ some y) :
    relative cwd target start = wayTo more.length y := by
  rw [relative, hstart, h.place_target, way_eq hmore]
  split
  · rename_i hnil
    exact absurd hnil (by simp)
  · rfl

/-- So many steps up lead to the directory of the target, or past it. -/
theorem leads_iff (h : Parting cwd file target above rest x y)
    (hcwd : isAbsolute target ∨ ∀ d ∈ cwd, IsName d) (n : Nat) :
    Leads cwd file (wayTo n y) target ↔
      (above ++ rest).take ((above ++ rest).length - n) = above := by
  obtain ⟨hsteps, hrelative⟩ := steps_wayTo h.isName n
  have habsolute : isAbsolute (dirName file) = isAbsolute target := by
    rw [Bool.eq_iff_iff, isAbsolute_iff, isAbsolute_iff, h.root_eq]
  have hnames : ∀ c ∈ above ++ rest, IsName c := by
    rw [← h.place_dirName]
    exact isName_place (habsolute ▸ hcwd)
  rw [Leads, absolute_eq_iff hcwd (by rw [root_join h.dirName_ne hrelative, h.root_eq]),
    place_join h.dirName_ne hrelative, hsteps, h.place_dirName, List.foldl_append,
    foldl_walk_up hnames, List.foldl_cons, walk_of_ne_up h.isName.ne_up, List.foldl_nil,
    h.place_target, List.append_left_inj]

theorem head_rest_ne (h : Parting cwd file target above rest x y) : rest.head? ≠ some y := by
  have hne := h.head_ne
  cases rest with
  | nil => simp
  | cons c rest => exact hne

/-- The path of the target from the file or from its directory names something. -/
theorem relative_ne_here (h : Parting cwd file target above rest x y) :
    relative cwd target (dirName file) ≠ ['.'] ∧ relative cwd target file ≠ ['.'] := by
  rw [h.relative_eq h.place_dirName h.head_rest_ne, h.relative_eq h.place_file h.head_ne]
  exact ⟨wayTo_ne_here h.isName _, wayTo_ne_here h.isName _⟩

/-- The way from the directory of the file leads to the target. -/
theorem leads_dirName (h : Parting cwd file target above rest x y)
    (hcwd : isAbsolute target ∨ ∀ d ∈ cwd, IsName d) :
    Leads cwd file (relative cwd target (dirName file)) target := by
  rw [h.relative_eq h.place_dirName h.head_rest_ne, h.leads_iff hcwd]
  simp

/-- The way from the file, followed from its directory, leads one step further up than to the
target, which makes no difference at the root only. -/
theorem leads_file_iff (h : Parting cwd file target above rest x y)
    (hcwd : isAbsolute target ∨ ∀ d ∈ cwd, IsName d) :
    Leads cwd file (relative cwd target file) target ↔
      common (place cwd file) (place cwd target) = 0 := by
  rw [h.relative_eq h.place_file h.head_ne, h.leads_iff hcwd, h.place_file, h.place_target,
    common_append, common_eq_zero h.head_ne, List.take_append_of_le_length (by simp)]
  constructor
  · intro htake
    have hlength := congrArg List.length htake
    simp only [List.length_take, List.length_append, List.length_singleton] at hlength
    omega
  · intro hzero
    have hnil : above = [] := by simpa using hzero
    simp [hnil]

end Parting

end DocTree.Path
