import DocTree.Proofs.FileSystem.Reach
import DocTree.Proofs.Path.Respell

/-!
# What is found under two names

If two names lead to one directory, then what is found on the way down from there is the same under
both, except that one of the paths may be too long or lead through too many links.
-/
namespace DocTree

namespace Path

theorem eq_slash_of_mem_root {c : Char} {p : Text} (h : c ∈ root p) : c = '/' := by
  unfold root at h
  split at h <;> simp_all

/-- The plain spelling has no characters that the path does not have, but slashes and dots. -/
theorem mem_of_mem_plain {c : Char} {p : Text} (h : c ∈ plain p) : c ∈ p ∨ c = '/' ∨ c = '.' := by
  rw [plain] at h
  split at h
  · exact .inr (.inr (List.mem_singleton.mp h))
  obtain h | h := List.mem_append.mp h
  · exact .inr (.inl (eq_slash_of_mem_root h))
  obtain h | ⟨part, hpart, hc⟩ := Text.mem_of_mem_intercalate h
  · exact .inr (.inl (List.mem_singleton.mp h))
  · exact .inl (Text.subset_of_mem_splitOn (List.mem_filter.mp hpart).1 hc)

theorem plain_ne_nil (p : Text) : plain p ≠ [] := by
  rw [plain]
  split
  · simp
  · assumption

end Path

/-- A path is too long, or leads through too many links. -/
def Fault.IsLimit (fault : Fault) : Prop :=
  ∃ path, fault = .access .nameTooLong path ∨ fault = .access .tooManyLinks path

def Fault.under (path : Text) : Fault → Fault
  | .access cause _ => .access cause path
  | fault => fault

/-- A computation fails at a path that is too long or leads through too many links. -/
def Limited {α : Type} (x : Except Fault α) : Prop :=
  ∃ fault, x = .error fault ∧ fault.IsLimit

section

variable {α β : Type} {x y : Except Fault α}

theorem not_limited_ok (a : α) : ¬ Limited (.ok a : Except Fault α) := by
  rintro ⟨fault, h, -⟩
  cases h

theorem Limited.bind (h : Limited x) (f : α → Except Fault β) : Limited (x >>= f) := by
  obtain ⟨fault, rfl, hlimit⟩ := h
  exact ⟨fault, rfl, hlimit⟩

/-- One of two computations is limited, or the second comes to what the first does. -/
def AgreeUnder (path : Text) (x y : Except Fault α) : Prop :=
  Limited x ∨ Limited y ∨ y = x.mapError (Fault.under path)

theorem AgreeUnder.bind {path : Text} (h : AgreeUnder path x y) {f g : α → Except Fault β}
    (hfg : ∀ a, g a = (f a).mapError (Fault.under path)) : AgreeUnder path (x >>= f) (y >>= g) := by
  obtain hx | hy | rfl := h
  · exact .inl (hx.bind f)
  · exact .inr (.inl (hy.bind g))
  · cases x with
    | error fault => exact .inr (.inr rfl)
    | ok a => exact .inr (.inr (hfg a))

end

namespace FileSystem

section

variable {root : Node} {links : Nat} {start place : List Text}

theorem walk_or {follow follow' : List Text → List Text → Except Cause (List Text)}
    (h : ∀ start s, follow start s = .error .tooManyLinks ∨ follow' start s = follow start s)
    (start s : List Text) :
    walk root follow start s = .error .tooManyLinks ∨
      walk root follow' start s = walk root follow start s := by
  induction s generalizing start with
  | nil => exact .inr rfl
  | cons a s ih =>
    rw [walk, walk]
    cases Node.at? start root with
    | none => exact .inr rfl
    | some n =>
      cases n with
      | file bytes => exact .inr rfl
      | link target => exact .inr rfl
      | directory entries =>
        dsimp only
        by_cases hhere : a = ['.']
        · simpa only [if_pos hhere] using ih start
        by_cases hup : a = ['.', '.']
        · simpa only [if_neg hhere, if_pos hup] using ih start.dropLast
        by_cases hlong : 255 < (Text.Utf8.encode a).length
        · exact .inr (by simp only [if_neg hhere, if_neg hup, if_pos hlong])
        simp only [if_neg hhere, if_neg hup, if_neg hlong]
        cases entries.lookup a with
        | none => exact .inr rfl
        | some child =>
          cases child with
          | link target => exact h _ _
          | file bytes => exact ih _
          | directory inside => exact ih _

/-- With more links left steps lead where they led before, if the links were enough. -/
theorem walkThrough_or {more : Nat} (h : links ≤ more) (start s : List Text) :
    walkThrough root links start s = .error .tooManyLinks ∨
      walkThrough root more start s = walkThrough root links start s := by
  induction links generalizing more start s with
  | zero =>
    rw [walkThrough_eq root more]
    exact walk_or (fun _ _ => .inl rfl) start s
  | succ links ih =>
    cases more with
    | zero => omega
    | succ more => exact walk_or (fun start s => ih (Nat.le_of_succ_le_succ h) start s) start s

theorem walkThrough_passes {s : List Text} {inside : List (Text × Node)}
    (hdir : Node.at? place root = some (.directory inside))
    (hbehind : ∀ start s, behind root links start s = .ok place →
      ∃ left, ∀ more, behind root links start (s ++ more) = walkThrough root left place more)
    (h : walkThrough root links start s = .ok place) :
    ∃ left, ∀ more, walkThrough root links start (s ++ more) = walkThrough root left place more := by
  induction s generalizing start with
  | nil =>
    rw [walkThrough_nil] at h
    cases h
    exact ⟨links, fun _ => rfl⟩
  | cons a s ih =>
    obtain ⟨entries, hat⟩ := exists_directory_of_walkThrough h
    simp only [List.cons_append, walkThrough_cons hat] at h ⊢
    by_cases hhere : a = ['.']
    · simp only [if_pos hhere] at h ⊢
      exact ih h
    by_cases hup : a = ['.', '.']
    · simp only [if_neg hhere, if_pos hup] at h ⊢
      exact ih h
    simp only [if_neg hhere, if_neg hup] at h ⊢
    split at h
    · cases h
    rename_i hlong
    simp only [if_neg hlong]
    cases hchild : entries.lookup a with
    | none =>
      -- What is not there is no directory.
      simp only [hchild] at h
      split at h
      · cases h
        rw [Node.at?_append_singleton, hat] at hdir
        simp [Node.child?, hchild] at hdir
      · cases h
    | some child =>
      simp only [hchild] at h ⊢
      cases child with
      | file bytes => exact ih h
      | directory _ => exact ih h
      | link target =>
        simp only [← List.append_assoc] at h ⊢
        exact hbehind _ _ h

/-- Steps to a directory come past it, whatever follows. -/
theorem exists_left_of_walkThrough {s : List Text} {inside : List (Text × Node)}
    (hdir : Node.at? place root = some (.directory inside))
    (h : walkThrough root links start s = .ok place) :
    ∃ left, ∀ more, walkThrough root links start (s ++ more) = walkThrough root left place more := by
  induction links generalizing start s with
  | zero => exact walkThrough_passes hdir (fun _ _ hbehind => by cases hbehind) h
  | succ links ih => exact walkThrough_passes hdir (fun _ _ hbehind => ih hbehind) h

end

def onward (r : Text) : List Text :=
  if r = [] then [['.']] else steps r

section

variable {fs : FileSystem} {p q r : Text} {here : List Text} {inside : List (Text × Node)}

theorem steps_join_relative (hp : p ≠ []) (hr : ¬ Path.isAbsolute r) :
    steps (Path.join p r) = (Path.parts p).filter (!·.isEmpty) ++ onward r := by
  rw [steps, Path.parts_join_relative hp hr, onward, List.append_assoc]
  by_cases hnil : r = []
  · subst hnil
    simp [Path.getLast?_join_nil hp, Path.parts, Text.splitOn]
  · obtain ⟨front, hjoin, -⟩ := Path.exists_join hp hr
    rw [if_neg hnil, steps, hjoin, List.getLast?_append_of_ne_nil _ (List.cons_ne_nil _ _),
      List.getLast?_cons_of_ne_nil hnil]

/-- Behind a name of a directory all paths are followed from there, so many links being left. -/
theorem exists_left (hp : fs.resolve p = .ok here)
    (hdir : Node.at? here fs.root = some (.directory inside)) :
    ∃ left, ∀ r, ¬ Path.isAbsolute r →
      walkThrough fs.root maxLinks (fs.startOf (Path.join p r)) (steps (Path.join p r)) =
        walkThrough fs.root left here (onward r) := by
  obtain ⟨hne, -, -, hwalk⟩ := resolve_eq_ok.mp hp
  have hleft : ∃ left, ∀ more, walkThrough fs.root maxLinks (fs.startOf p)
      ((Path.parts p).filter (!·.isEmpty) ++ more) = walkThrough fs.root left here more := by
    rw [steps] at hwalk
    split at hwalk
    · obtain ⟨there, left, entries, hat, hmore⟩ := walkThrough_append (by simp) hwalk
      have hthere := (hmore [['.']]).symm.trans hwalk
      rw [walkThrough_cons hat, if_pos rfl, walkThrough_nil] at hthere
      cases hthere
      exact ⟨left, hmore⟩
    · rw [List.append_nil] at hwalk
      exact exists_left_of_walkThrough hdir hwalk
  obtain ⟨left, hleft⟩ := hleft
  refine ⟨left, fun r hr => ?_⟩
  rw [steps_join_relative hne hr, startOf, Path.isAbsolute_join hne hr, ← startOf]
  exact hleft (onward r)

theorem notMem_join {c : Char} (hp : c ∉ p) (hc : c ≠ '/') (hr : ¬ Path.isAbsolute r) :
    c ∈ Path.join p r ↔ c ∈ r := by
  rw [Path.join, if_neg hr]
  split <;> simp [hp, hc]

theorem resolve_eq (hp : p ≠ []) : fs.resolve p =
    if Char.ofNat 0 ∈ p then .error .nullCharacter
    else if maxPath ≤ (Text.Utf8.encode p).length then .error (.access .nameTooLong p)
    else (walkThrough fs.root maxLinks (fs.startOf p) (steps p)).mapError (.access · p) := by
  rw [resolve]
  simp only [List.isEmpty_iff, hp, if_false, List.contains_iff_mem, startOf]
  congr 2
  cases walkThrough fs.root maxLinks (if Path.isAbsolute p then [] else fs.workingDirectory) (steps p) <;>
    rfl

/-- Two names lead to one directory. -/
structure SameDirectory (fs : FileSystem) (p q : Text) (here : List Text) : Prop where
  left : fs.resolve p = .ok here
  right : fs.resolve q = .ok here
  directory : ∃ inside, Node.at? here fs.root = some (.directory inside)

theorem SameDirectory.ne_nil (h : fs.SameDirectory p q here) : p ≠ [] ∧ q ≠ [] :=
  ⟨(resolve_eq_ok.mp h.left).1, (resolve_eq_ok.mp h.right).1⟩

/-- What leads on from a directory leads to one place under both of its names. -/
theorem SameDirectory.resolve (h : fs.SameDirectory p q here) (hr : ¬ Path.isAbsolute r) :
    AgreeUnder (Path.join q r) (fs.resolve (Path.join p r)) (fs.resolve (Path.join q r)) := by
  obtain ⟨inside, hdir⟩ := h.directory
  obtain ⟨left, hleft⟩ := exists_left h.left hdir
  obtain ⟨left', hleft'⟩ := exists_left h.right hdir
  obtain ⟨hp, hnull, -, -⟩ := resolve_eq_ok.mp h.left
  obtain ⟨hq, hnull', -, -⟩ := resolve_eq_ok.mp h.right
  have hslash : Char.ofNat 0 ≠ '/' := by decide
  rw [resolve_eq (Path.join_ne_nil hp r), resolve_eq (Path.join_ne_nil hq r), hleft r hr, hleft' r hr]
  simp only [notMem_join hnull hslash hr, notMem_join hnull' hslash hr]
  by_cases hmem : Char.ofNat 0 ∈ r
  · simp only [if_pos hmem]
    exact .inr (.inr rfl)
  by_cases hlong : maxPath ≤ (Text.Utf8.encode (Path.join p r)).length
  · simp only [if_neg hmem, if_pos hlong]
    exact .inl ⟨_, rfl, _, .inl rfl⟩
  by_cases hlong' : maxPath ≤ (Text.Utf8.encode (Path.join q r)).length
  · simp only [if_neg hmem, if_pos hlong']
    exact .inr (.inl ⟨_, rfl, _, .inl rfl⟩)
  simp only [if_neg hmem, if_neg hlong, if_neg hlong']
  have hwalk : walkThrough fs.root left here (onward r) = .error .tooManyLinks ∨
      walkThrough fs.root left' here (onward r) = .error .tooManyLinks ∨
      walkThrough fs.root left' here (onward r) = walkThrough fs.root left here (onward r) := by
    obtain hle | hle := Nat.le_total left left'
    · exact (walkThrough_or hle here (onward r)).imp_right .inr
    · exact .inr ((walkThrough_or hle here (onward r)).imp_right Eq.symm)
  obtain hmany | hmany | hsame := hwalk
  · rw [hmany]
    exact .inl ⟨_, rfl, _, .inr rfl⟩
  · rw [hmany]
    exact .inr (.inl ⟨_, rfl, _, .inr rfl⟩)
  · rw [hsame]
    cases walkThrough fs.root left here (onward r) <;> exact .inr (.inr rfl)

theorem SameDirectory.find (h : fs.SameDirectory p q here) (hr : ¬ Path.isAbsolute r) :
    AgreeUnder (Path.join q r) (fs.find (Path.join p r)) (fs.find (Path.join q r)) := by
  apply (h.resolve hr).bind
  intro place
  cases Node.at? place fs.root <;> rfl

end

theorem steps_root_append (p : Text) {q : Text} (hq : q ≠ []) : steps (Path.root p ++ q) = steps q := by
  have hslash : ∀ {q}, q ≠ [] → steps ('/' :: q) = steps q := by
    intro q hq
    rw [steps, steps, List.getLast?_cons_of_ne_nil hq]
    simp [Path.parts, Text.splitOn]
  unfold Path.root
  split
  · exact hslash hq
  · exact (hslash (by simp)).trans (hslash hq)
  · exact hslash hq
  · rfl

/-- The plain spelling takes the steps that lead anywhere, or one step in place. -/
theorem steps_plain (p : Text) :
    steps (Path.plain p) = if Path.steps p = [] then [['.']] else Path.steps p := by
  have hslash : ∀ name ∈ Path.steps p, '/' ∉ name := fun name hname => Path.notMem_of_mem_steps hname
  by_cases hsteps : Path.steps p = []
  · rw [if_pos hsteps, Path.plain, hsteps]
    unfold Path.root
    split <;> decide
  · have hnames : ∀ name ∈ Path.steps p, name ≠ [] := by
      intro name hname
      have := (List.mem_filter.mp hname).2
      rintro rfl
      cases this
    have hparts : Path.parts (List.intercalate ['/'] (Path.steps p)) = Path.steps p :=
      Text.splitOn_intercalate hsteps hslash
    have hne : List.intercalate ['/'] (Path.steps p) ≠ [] := by
      intro hnil
      rw [hnil] at hparts
      exact hnames [] (by simp [← hparts, Path.parts, Text.splitOn]) rfl
    have hlast : (List.intercalate ['/'] (Path.steps p)).getLast? ≠ some '/' := by
      intro hlast
      obtain ⟨front, hfront⟩ := List.getLast?_eq_some_iff.mp hlast
      rw [hfront, Path.parts, Text.splitOn_append] at hparts
      exact hnames [] (by simp [← hparts, Text.splitOn]) rfl
    rw [if_neg hsteps, Path.plain, if_neg (by simp [hne]), steps_root_append p hne, steps, hparts,
      if_neg hlast, List.append_nil, List.filter_eq_self]
    intro name hname
    simpa using hnames name hname

theorem steps_ne_nil {p : Text} (hp : p ≠ []) : steps p ≠ [] := by
  obtain ⟨front, name, hname, hfront, rfl⟩ := Path.exists_last p
  have hparts : name ∈ Path.parts (front ++ name) :=
    List.mem_of_getLast? (Path.getLast?_parts hfront hname)
  by_cases hnil : name = []
  · subst hnil
    rw [List.append_nil] at hp ⊢
    simp [steps, hfront.resolve_left hp]
  · rw [steps]
    exact List.append_ne_nil_of_left_ne_nil
      (List.ne_nil_of_mem (List.mem_filter.mpr ⟨hparts, by simpa using hnil⟩)) _

/-- The plain spelling of a path leads where the path does, unless it is too long. -/
theorem resolve_plain_or {fs : FileSystem} {path : Text} {place : List Text}
    (h : fs.resolve path = .ok place) :
    fs.resolve (Path.plain path) = .ok place ∨ Limited (fs.resolve (Path.plain path)) := by
  obtain ⟨hne, hnull, -, hwalk⟩ := resolve_eq_ok.mp h
  have hnull' : Char.ofNat 0 ∉ Path.plain path := by
    intro hmem
    obtain hmem | hslash | hdot := Path.mem_of_mem_plain hmem
    · exact hnull hmem
    · cases hslash
    · cases hdot
  have hplain : walkThrough fs.root maxLinks (fs.startOf path) (steps (Path.plain path)) = .ok place := by
    have hleft := walkThrough_filter hwalk
    rw [steps_filter] at hleft
    rw [steps_plain]
    by_cases hsteps : Path.steps path = []
    · obtain ⟨a, rest, hcons⟩ := List.exists_cons_of_ne_nil (steps_ne_nil hne)
      rw [hcons] at hwalk
      obtain ⟨entries, hat⟩ := exists_directory_of_walkThrough hwalk
      rw [hsteps] at hleft
      rwa [if_pos hsteps, walkThrough_cons hat, if_pos rfl]
    · rwa [if_neg hsteps]
  rw [resolve_eq (Path.plain_ne_nil path), if_neg hnull', startOf, Path.isAbsolute_plain, ← startOf, hplain]
  split
  · exact .inr ⟨_, rfl, _, .inl rfl⟩
  · exact .inl rfl

/-- One file is read under two names. -/
theorem readText_or {fs : FileSystem} {a b text : Text} {place : List Text}
    (ha : fs.resolve a = .ok place) (hb : fs.resolve b = .ok place) (h : fs.readText a = .ok text) :
    fs.readText b = .ok text ∨ Limited (fs.readText b) := by
  obtain ⟨other, hholds⟩ := exists_holds h
  cases resolve_plain ha hholds.resolve
  obtain hplain | hlimit := resolve_plain_or hb
  · have hholds : fs.Holds b place text := ⟨hplain, hholds.at?⟩
    exact .inl hholds.readText
  · exact .inr (((hlimit.bind _).bind _).bind _)

end FileSystem

end DocTree
