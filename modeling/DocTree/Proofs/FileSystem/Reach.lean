import DocTree.Proofs.Path.Below

/-!
# What paths through a directory reach

Symbolic links included, a path that leads on from a directory finds what the directory holds under
the next name, and a path spelled plainly leads where it led before. A file stands at a place below
a directory if the path through the names of the place leads to a file.
-/
namespace DocTree

namespace Node

mutual

/-- Every name at or below the node is one that an entry of a directory can have. -/
def isNamed : Node → Bool
  | file _ => true
  | link _ => true
  | directory entries => areNamed entries

def areNamed : List (Text × Node) → Bool
  | [] => true
  | (name, n) :: rest => decide (Path.IsName name) && n.isNamed && areNamed rest

end

variable {root : Node} {entries : List (Text × Node)}

theorem areNamed_iff : areNamed entries ↔ ∀ e ∈ entries, Path.IsName e.1 ∧ e.2.isNamed := by
  induction entries with
  | nil => simp [areNamed]
  | cons e rest ih =>
    obtain ⟨name, n⟩ := e
    simp [areNamed, ih]

theorem isNamed_of_lookup (h : areNamed entries) {name : Text} {n : Node}
    (hn : entries.lookup name = some n) : Path.IsName name ∧ n.isNamed := by
  obtain ⟨before, after, rfl, -⟩ := List.lookup_eq_some_iff.mp hn
  exact areNamed_iff.mp h (name, n) (by simp)

/-- Only names lead to what stands in a tree, and names stand at and below it. -/
theorem isNamed_at? (h : root.isNamed) {place : List Text} {n : Node}
    (hn : at? place root = some n) : (∀ c ∈ place, Path.IsName c) ∧ n.isNamed := by
  induction place generalizing root with
  | nil =>
    cases hn
    exact ⟨by simp, h⟩
  | cons name rest ih =>
    obtain ⟨entries, child, rfl, hchild, hrest⟩ := exists_child_of_at? hn
    obtain ⟨hname, hnamed⟩ := isNamed_of_lookup h hchild
    obtain ⟨hplace, hn⟩ := ih hnamed hrest
    exact ⟨by simpa [hname] using hplace, hn⟩

end Node

namespace FileSystem

section

variable {root : Node} {links : Nat} {start place : List Text}

def behind (root : Node) : Nat → List Text → List Text → Except Cause (List Text)
  | 0 => fun _ _ => .error .tooManyLinks
  | links + 1 => walkThrough root links

theorem walkThrough_eq (root : Node) (links : Nat) :
    walkThrough root links = walk root (behind root links) := by
  cases links <;> rfl

theorem walkThrough_nil : walkThrough root links start [] = .ok start := by
  rw [walkThrough_eq]
  rfl

/-- One step from a directory. -/
theorem walkThrough_cons {entries : List (Text × Node)}
    (h : Node.at? start root = some (.directory entries)) (s : Text) (rest : List Text) :
    walkThrough root links start (s :: rest) =
      if s = ['.'] then walkThrough root links start rest
      else if s = ['.', '.'] then walkThrough root links start.dropLast rest
      else if 255 < (Text.Utf8.encode s).length then .error .nameTooLong
      else match entries.lookup s with
        | none => if rest.isEmpty then .ok (start ++ [s]) else .error .missing
        | some (.link target) =>
          behind root links (if Path.isAbsolute target then [] else start) (steps target ++ rest)
        | some _ => walkThrough root links (start ++ [s]) rest := by
  rw [walkThrough_eq, walk]
  generalize Node.at? start root = n at h
  subst h
  rfl

/-- Only a directory leads on. -/
theorem exists_directory_of_walkThrough {s : Text} {rest : List Text}
    (h : walkThrough root links start (s :: rest) = .ok place) :
    ∃ entries, Node.at? start root = some (.directory entries) := by
  rw [walkThrough_eq, walk] at h
  cases hn : Node.at? start root with
  | none =>
    rw [hn] at h
    cases h
  | some n =>
    rw [hn] at h
    cases n with
    | file bytes => cases h
    | link target => cases h
    | directory entries => exact ⟨entries, rfl⟩

/-- Steps lead past a directory, from which all that may follow is taken. -/
def LeadsPast (root : Node) (follow : List Text → Except Cause (List Text)) : Prop :=
  ∃ here left entries, Node.at? here root = some (.directory entries) ∧
    ∀ more, follow more = walkThrough root left here more

theorem walkThrough_leadsPast {s t : List Text} (ht : t ≠ [])
    (hbehind : ∀ start s, behind root links start (s ++ t) = .ok place →
      LeadsPast root fun more => behind root links start (s ++ more))
    (h : walkThrough root links start (s ++ t) = .ok place) :
    LeadsPast root fun more => walkThrough root links start (s ++ more) := by
  induction s generalizing start with
  | nil =>
    obtain ⟨a, rest, rfl⟩ := List.exists_cons_of_ne_nil ht
    obtain ⟨entries, hat⟩ := exists_directory_of_walkThrough h
    exact ⟨start, links, entries, hat, fun _ => rfl⟩
  | cons a s ih =>
    obtain ⟨entries, hat⟩ := exists_directory_of_walkThrough h
    simp only [List.cons_append, walkThrough_cons hat] at h ⊢
    by_cases hhere : a = ['.']
    · simp only [if_pos hhere] at h ⊢
      exact ih h
    by_cases hup : a = ['.', '.']
    · simp only [if_neg hhere, if_pos hup] at h ⊢
      exact ih h
    simp only [if_neg hhere, if_neg hup] at h ⊢
    split at h
    · cases h
    rename_i hlong
    simp only [if_neg hlong]
    cases hchild : entries.lookup a with
    | none => simp [hchild, ht] at h
    | some child =>
      simp only [hchild] at h ⊢
      cases child with
      | file bytes => exact ih h
      | directory inside => exact ih h
      | link target =>
        have hpast := hbehind _ (steps target ++ s) (by rw [List.append_assoc]; exact h)
        simpa only [List.append_assoc] using hpast

/-- Steps that lead on come past a directory in front of any of them. -/
theorem walkThrough_append {s t : List Text} (ht : t ≠ [])
    (h : walkThrough root links start (s ++ t) = .ok place) :
    LeadsPast root fun more => walkThrough root links start (s ++ more) := by
  induction links generalizing start s with
  | zero => exact walkThrough_leadsPast ht (fun _ _ hbehind => by cases hbehind) h
  | succ links ih => exact walkThrough_leadsPast ht (fun _ _ hbehind => ih hbehind) h

/-- Behind other steps, those that stay in place may be left out. -/
theorem walkThrough_append_filter {s t : List Text}
    (h : walkThrough root links start (s ++ t) = .ok place) :
    walkThrough root links start (s ++ t.filter fun c => c != ['.']) = .ok place := by
  induction t generalizing s with
  | nil => exact h
  | cons c t ih =>
    by_cases hhere : c = ['.']
    · obtain ⟨here, left, entries, hat, hmore⟩ := walkThrough_append (by simp) h
      have hleft := (hmore (c :: t)).symm.trans h
      rw [walkThrough_cons hat, if_pos hhere] at hleft
      have hskip : walkThrough root links start (s ++ t) = .ok place := (hmore t).trans hleft
      simpa [hhere] using ih hskip
    · have hkept := ih (s := s ++ [c]) (by simpa using h)
      simpa [hhere] using hkept

/-- Steps that stay in place may be left out. -/
theorem walkThrough_filter {s : List Text} (h : walkThrough root links start s = .ok place) :
    walkThrough root links start (s.filter fun c => c != ['.']) = .ok place :=
  walkThrough_append_filter (s := []) h

end

section

variable {fs : FileSystem} {path : Text} {place : List Text}

def startOf (fs : FileSystem) (path : Text) : List Text :=
  if Path.isAbsolute path then [] else fs.workingDirectory

theorem resolve_eq_ok : fs.resolve path = .ok place ↔
    path ≠ [] ∧ Char.ofNat 0 ∉ path ∧ (Text.Utf8.encode path).length < maxPath ∧
      walkThrough fs.root maxLinks (fs.startOf path) (steps path) = .ok place := by
  rw [resolve]
  by_cases hempty : path = []
  · simp [hempty]
  by_cases hnull : Char.ofNat 0 ∈ path
  · simp [hempty, hnull]
  by_cases hlong : maxPath ≤ (Text.Utf8.encode path).length
  · simp [hempty, hnull, hlong, Nat.not_lt.mpr hlong]
  · simp only [List.isEmpty_iff, hempty, List.contains_iff_mem, hnull, hlong, if_false, ne_eq,
      not_false_eq_true, true_and, Nat.not_le.mp hlong]
    rw [← startOf]
    cases walkThrough fs.root maxLinks (fs.startOf path) (steps path) <;> simp

/-- A path and its plain spelling lead to the same place, where both lead anywhere. -/
theorem resolve_plain {other : List Text} (h : fs.resolve path = .ok place)
    (hplain : fs.resolve (Path.plain path) = .ok other) : other = place := by
  obtain ⟨-, -, -, hwalk⟩ := resolve_eq_ok.mp h
  obtain ⟨-, -, -, hother⟩ := resolve_eq_ok.mp hplain
  have hwalk := walkThrough_filter hwalk
  have hother := walkThrough_filter hother
  rw [steps_filter] at hwalk hother
  rw [Path.steps_plain, startOf, Path.isAbsolute_plain, ← startOf, hwalk] at hother
  exact (Except.ok.inj hother).symm

theorem exists_find_of_exists? (h : fs.exists? path = .ok true) : ∃ n, fs.find path = .ok n := by
  rw [exists?] at h
  cases hn : fs.find path with
  | ok n => exact ⟨n, rfl⟩
  | error fault =>
    rw [hn] at h
    split at h <;> simp_all

theorem find_ne_ok_of_exists? (h : fs.exists? path = .ok false) (n : Node) :
    fs.find path ≠ .ok n := by
  intro hn
  rw [exists?, hn] at h
  cases h

def IsFile (fs : FileSystem) (path : Text) : Prop :=
  ∃ bytes, fs.find path = .ok (.file bytes)

/-- A path that leads somewhere, and whose plain spelling reads as a text, leads to a file. -/
theorem isFile_of_readText {n : Node} {text : Text} (h : fs.find path = .ok n)
    (htext : fs.readText path = .ok text) : fs.IsFile path := by
  obtain ⟨place, hresolve, hat⟩ := find_eq_ok.mp h
  obtain ⟨other, hholds⟩ := exists_holds htext
  have hfile := hholds.at?
  rw [resolve_plain hresolve hholds.resolve] at hfile
  exact ⟨_, find_eq_ok.mpr ⟨place, hresolve, hfile⟩⟩

/-- The parts that a path goes through, and then a step in place if it asks for a directory. -/
theorem steps_join {name : Text} (hpath : path ≠ []) (hslash : '/' ∉ name) :
    ∃ front tail, steps path = front ++ tail ∧ (tail = [] ∨ tail = [['.']]) ∧
      steps (Path.join path name) = front ++ [if name = [] then ['.'] else name] := by
  obtain ⟨front, hjoin, -⟩ := Path.exists_join hpath (Path.not_isAbsolute_of_notMem hslash)
  refine ⟨(Path.parts path).filter (!·.isEmpty),
    if path.getLast? = some '/' then [['.']] else [], rfl, ?_, ?_⟩
  · split <;> simp
  · rw [steps, Path.parts_join hpath hslash]
    by_cases hname : name = []
    · subst hname
      have hlast : (Path.join path []).getLast? = some '/' := by simp [hjoin]
      simp [hlast]
    · have hlast : (Path.join path name).getLast? ≠ some '/' := by
        rw [hjoin, List.getLast?_append_of_ne_nil _ (by simp), List.getLast?_cons_of_ne_nil hname]
        exact fun hend => hslash (List.mem_of_getLast? hend)
      simp [hname, hlast]

/-- A path continued by one component leads through the directory that the path leads to. -/
theorem exists_here {name : Text} (hpath : path ≠ []) (hslash : '/' ∉ name)
    (h : fs.resolve (Path.join path name) = .ok place) :
    ∃ here left entries, fs.resolve path = .ok here ∧
      Node.at? here fs.root = some (.directory entries) ∧
      walkThrough fs.root left here [if name = [] then ['.'] else name] = .ok place := by
  obtain ⟨front, tail, hsteps, htail, hjoin⟩ := steps_join hpath hslash
  obtain ⟨-, hnull, hlong, hwalk⟩ := resolve_eq_ok.mp h
  have habsolute := Path.isAbsolute_join hpath (Path.not_isAbsolute_of_notMem hslash)
  obtain ⟨more, hmore⟩ : ∃ more, Path.join path name = path ++ more := by
    obtain ⟨front, hfront, rfl | rfl⟩ :=
      Path.exists_join hpath (Path.not_isAbsolute_of_notMem hslash)
    · exact ⟨_, hfront⟩
    · exact ⟨name, by simp [hfront]⟩
  rw [hjoin, startOf, habsolute, ← startOf] at hwalk
  obtain ⟨here, left, entries, hat, hfollow⟩ := walkThrough_append (by simp) hwalk
  refine ⟨here, left, entries, resolve_eq_ok.mpr ⟨hpath, ?_, ?_, ?_⟩, hat, ?_⟩
  · intro hmem
    apply hnull
    rw [hmore]
    exact List.mem_append_left _ hmem
  · rw [hmore, Text.Utf8.encode, List.flatMap_append, List.length_append] at hlong
    exact Nat.lt_of_le_of_lt (Nat.le_add_right _ _) hlong
  · rw [hsteps]
    apply (hfollow tail).trans
    rcases htail with rfl | rfl
    · exact walkThrough_nil
    · rw [walkThrough_cons hat, if_pos rfl, walkThrough_nil]
  · exact (hfollow _).symm.trans hwalk

theorem names_eq_ok {names : List Text} : fs.names path = .ok names ↔
    ∃ entries, fs.find path = .ok (.directory entries) ∧
      (entries.map (·.1)).eraseDups = names := by
  rw [FileSystem.names, bind_eq_ok]
  constructor
  · rintro ⟨n, hn, h⟩
    cases n with
    | file bytes => cases h
    | link target => cases h
    | directory entries => exact ⟨entries, hn, pure_eq_ok.mp h⟩
  · rintro ⟨entries, hn, h⟩
    exact ⟨_, hn, pure_eq_ok.mpr h⟩

theorem nodup_names {names : List Text} (h : fs.names path = .ok names) : names.Nodup := by
  obtain ⟨entries, -, rfl⟩ := names_eq_ok.mp h
  exact nodup_eraseDups _

/-- What a path through a directory finds under a name stands under the name in the directory. -/
theorem exists_names_of_find {name : Text} {n : Node} (hpath : path ≠ []) (hname : Path.IsName name)
    (h : fs.find (Path.join path name) = .ok n) : ∃ names, fs.names path = .ok names ∧ name ∈ names := by
  obtain ⟨place, hplace, hat⟩ := find_eq_ok.mp h
  obtain ⟨here, left, entries, hhere, hdirectory, hwalk⟩ :=
    exists_here hpath hname.notMem_slash hplace
  refine ⟨_, names_eq_ok.mpr ⟨entries, find_eq_ok.mpr ⟨here, hhere, hdirectory⟩, rfl⟩, ?_⟩
  rw [List.mem_eraseDups]
  rw [if_neg hname.ne_nil, walkThrough_cons hdirectory, if_neg hname.ne_here,
    if_neg hname.ne_up] at hwalk
  split at hwalk
  · cases hwalk
  cases hchild : entries.lookup name with
  | some child =>
    obtain ⟨before, after, rfl, -⟩ := List.lookup_eq_some_iff.mp hchild
    simp
  | none =>
    rw [hchild] at hwalk
    cases hwalk
    rw [Node.at?_append_singleton, hdirectory] at hat
    simp [Node.child?, hchild] at hat

/-- Whatever stands below a path, the path leads to a directory. -/
theorem exists_directory_of_below {dir : Text} {n : Node} (hdir : dir ≠ []) (hplace : place ≠ [])
    (hnames : ∀ c ∈ place, Path.IsName c) (h : fs.find (Path.below dir place) = .ok n) :
    ∃ entries, fs.find dir = .ok (.directory entries) := by
  induction place generalizing dir n with
  | nil => exact absurd rfl hplace
  | cons c rest ih =>
    have hstep : ∃ m, fs.find (Path.join dir c) = .ok m := by
      by_cases hrest : rest = []
      · subst hrest
        exact ⟨n, h⟩
      · obtain ⟨entries, hentries⟩ := ih (Path.join_ne_nil hdir c) hrest
          (fun d hd => hnames d (by simp [hd])) h
        exact ⟨_, hentries⟩
    obtain ⟨m, hm⟩ := hstep
    obtain ⟨place, hplace, -⟩ := find_eq_ok.mp hm
    obtain ⟨here, left, entries, hhere, hat, -⟩ :=
      exists_here hdir (hnames c (by simp)).notMem_slash hplace
    exact ⟨entries, find_eq_ok.mpr ⟨here, hhere, hat⟩⟩

/-- A component through which a path leads to a file is a name. -/
theorem IsFile.isName {name : Text} (hpath : path ≠ []) (hslash : '/' ∉ name)
    (h : fs.IsFile (Path.join path name)) : Path.IsName name := by
  obtain ⟨bytes, hfind⟩ := h
  obtain ⟨place, hplace, hat⟩ := find_eq_ok.mp hfind
  obtain ⟨here, left, entries, -, hdirectory, hwalk⟩ := exists_here hpath hslash hplace
  have hstays : (if name = [] then ['.'] else name) ≠ ['.'] := by
    intro hhere
    rw [hhere, walkThrough_cons hdirectory, if_pos rfl, walkThrough_nil] at hwalk
    cases hwalk
    rw [hdirectory] at hat
    cases hat
  refine ⟨?_, ?_, ?_, hslash⟩
  · rintro rfl
    exact hstays rfl
  · rintro rfl
    exact hstays rfl
  · rintro rfl
    rw [if_neg (by simp), walkThrough_cons hdirectory, if_neg (by simp), if_pos rfl, walkThrough_nil] at hwalk
    cases hwalk
    obtain ⟨m, hm, hdir⟩ := Node.isDirectory_at?_dropLast hdirectory rfl
    rw [hat] at hm
    cases hm
    cases hdir

/-- A file stands at a place below a directory. -/
structure HasFile (fs : FileSystem) (dir : Text) (place : List Text) : Prop where
  ne_nil : place ≠ []
  names : ∀ c ∈ place, Path.IsName c
  isFile : fs.IsFile (Path.below dir place)

theorem hasFile_singleton {dir name : Text} :
    fs.HasFile dir [name] ↔ Path.IsName name ∧ fs.IsFile (Path.join dir name) := by
  constructor
  · exact fun h => ⟨h.names name (by simp), h.isFile⟩
  · exact fun ⟨hname, hfile⟩ => ⟨by simp, by simpa using hname, hfile⟩

theorem hasFile_cons {dir name : Text} {rest : List Text} (hrest : rest ≠ []) :
    fs.HasFile dir (name :: rest) ↔ Path.IsName name ∧ fs.HasFile (Path.join dir name) rest := by
  constructor
  · exact fun h => ⟨h.names name (by simp), hrest, fun c hc => h.names c (by simp [hc]), h.isFile⟩
  · exact fun ⟨hname, h⟩ => ⟨by simp, by simpa [hname] using h.names, h.isFile⟩

/-- Below what is no directory no file stands. -/
theorem HasFile.exists_directory {dir : Text} (hdir : dir ≠ []) (h : fs.HasFile dir place) :
    ∃ entries, fs.find dir = .ok (.directory entries) := by
  obtain ⟨bytes, hfind⟩ := h.isFile
  exact exists_directory_of_below hdir h.ne_nil h.names hfind

/-- Where a file stands below a directory, the first name leads to it or to a directory above it. -/
theorem HasFile.exists_find {dir name : Text} {rest : List Text} (hdir : dir ≠ [])
    (h : fs.HasFile dir (name :: rest)) :
    ∃ n, fs.find (Path.join dir name) = .ok n ∧ (n.isDirectory ↔ rest ≠ []) := by
  by_cases hrest : rest = []
  · subst hrest
    obtain ⟨bytes, hfile⟩ := h.isFile
    exact ⟨_, hfile, by simp [Node.isDirectory]⟩
  · obtain ⟨-, hbelow⟩ := (hasFile_cons hrest).mp h
    obtain ⟨entries, hentries⟩ := hbelow.exists_directory (Path.join_ne_nil hdir name)
    exact ⟨_, hentries, by simp [Node.isDirectory, hrest]⟩

/-- Where a file stands below a directory, the directory holds the name through which it does. -/
theorem HasFile.mem_names {dir name : Text} {rest names : List Text} (hdir : dir ≠ [])
    (h : fs.HasFile dir (name :: rest)) (hnames : fs.names dir = .ok names) : name ∈ names := by
  obtain ⟨n, hn, -⟩ := h.exists_find hdir
  obtain ⟨held, hheld, hmem⟩ := exists_names_of_find hdir (h.names name (by simp)) hn
  rw [hnames] at hheld
  cases hheld
  exact hmem

/-- A path that leads anywhere is followed from a place to which only names lead. -/
theorem isName_startOf {n : Node} (h : fs.root.isNamed) (hfind : fs.find path = .ok n) :
    ∀ c ∈ fs.startOf path, Path.IsName c := by
  obtain ⟨place, hresolve, hat⟩ := find_eq_ok.mp hfind
  obtain ⟨-, -, -, hwalk⟩ := resolve_eq_ok.mp hresolve
  cases hsteps : steps path with
  | nil =>
    rw [hsteps, walkThrough_nil] at hwalk
    have hplace : fs.startOf path = place := Except.ok.inj hwalk
    rw [hplace]
    exact (Node.isNamed_at? h hat).1
  | cons step rest =>
    rw [hsteps] at hwalk
    obtain ⟨entries, hstart⟩ := exists_directory_of_walkThrough hwalk
    exact (Node.isNamed_at? h hstart).1

/-- The names in a directory are names, if those in the tree are. -/
theorem names_isName {names : List Text} (h : fs.root.isNamed) (hnames : fs.names path = .ok names) :
    names.Nodup ∧ ∀ name ∈ names, Path.IsName name := by
  refine ⟨nodup_names hnames, ?_⟩
  obtain ⟨entries, hfind, rfl⟩ := names_eq_ok.mp hnames
  obtain ⟨place, -, hat⟩ := find_eq_ok.mp hfind
  intro name hname
  obtain ⟨e, he, rfl⟩ := List.mem_map.mp (List.mem_eraseDups.mp hname)
  exact (Node.areNamed_iff.mp (Node.isNamed_at? h hat).2 e he).1

end

end FileSystem

end DocTree
