import DocTree.Proofs.FileSystem.Respell

/-!
# File systems with the same directories

Without links a path leads to a directory by way of directories only. So in file systems that have
the same directories it leads to the same place, and from there a component leads one step further
whatever is held under it.
-/
namespace DocTree.FileSystem

def HasDirectory (fs : FileSystem) (place : List Text) : Prop :=
  ∃ entries, Node.at? place fs.root = some (.directory entries)

structure Opens (fs : FileSystem) (path : Text) (place : List Text) : Prop where
  resolve : fs.resolve path = .ok place
  directory : fs.HasDirectory place

/-- No links stand in two file systems, and directories at the same places. -/
structure SharesDirectories (fs fs' : FileSystem) : Prop where
  plain : fs.root.isPlain
  plain' : fs'.root.isPlain
  workingDirectory : fs'.workingDirectory = fs.workingDirectory
  directories : ∀ place, fs'.HasDirectory place ↔ fs.HasDirectory place

section

variable {fs fs' : FileSystem} {path name : Text} {here place start : List Text} {links : Nat}

theorem SharesDirectories.symm (h : fs.SharesDirectories fs') : fs'.SharesDirectories fs :=
  ⟨h.plain', h.plain, h.workingDirectory.symm, fun place => (h.directories place).symm⟩

/-- Where no links stand, only a file or a directory is held under a name. -/
theorem file_or_hasDirectory (h : fs.root.isPlain) {n : Node} (hn : Node.at? place fs.root = some n) :
    (∃ bytes, n = .file bytes) ∨ fs.HasDirectory place := by
  cases n with
  | file bytes => exact .inl ⟨bytes, rfl⟩
  | directory entries => exact .inr ⟨entries, hn⟩
  | link target => cases Node.isPlain_at? h hn

/-- Without links one step from a directory leads where it says, unless its name is too long. -/
theorem walkThrough_cons_plain {root : Node} (h : root.isPlain) {entries : List (Text × Node)}
    (hat : Node.at? start root = some (.directory entries)) (s : Text) (rest : List Text) :
    walkThrough root links start (s :: rest) =
      if 255 < (Text.Utf8.encode s).length then .error .nameTooLong
      else walkThrough root links (descend start s) rest := by
  rw [walkThrough_cons hat, descend]
  by_cases hhere : s = ['.']
  · subst hhere
    rfl
  by_cases hup : s = ['.', '.']
  · subst hup
    rfl
  simp only [if_neg hhere, if_neg hup]
  split
  · rfl
  cases hchild : entries.lookup s with
  | none =>
    -- What is not there leads no further.
    have hnone : Node.at? (start ++ [s]) root = none := by
      rw [Node.at?_append_singleton, hat]
      exact hchild
    cases rest with
    | nil => exact walkThrough_nil.symm
    | cons a rest => simp [walkThrough_eq, walk, hnone]
  | some child =>
    cases child with
    | file bytes => rfl
    | directory inside => rfl
    | link target => cases Node.isPlain_of_lookup (Node.isPlain_at? h hat) hchild

/-- Steps that lead anywhere lead to the same place in both file systems. -/
theorem SharesDirectories.walkThrough (h : fs.SharesDirectories fs') {steps : List Text}
    (hwalk : FileSystem.walkThrough fs.root links start steps = .ok place) :
    FileSystem.walkThrough fs'.root links start steps = .ok place := by
  induction steps generalizing start with
  | nil => rwa [walkThrough_nil] at hwalk ⊢
  | cons s rest ih =>
    obtain ⟨entries, hat⟩ := exists_directory_of_walkThrough hwalk
    obtain ⟨entries', hat'⟩ := (h.directories start).mpr ⟨entries, hat⟩
    rw [walkThrough_cons_plain h.plain hat] at hwalk
    rw [walkThrough_cons_plain h.plain' hat']
    split at hwalk
    · cases hwalk
    · rename_i hshort
      rw [if_neg hshort]
      exact ih hwalk

/-- A path that leads anywhere leads to the same place in both file systems. -/
theorem SharesDirectories.resolve (h : fs.SharesDirectories fs')
    (hpath : fs.resolve path = .ok place) : fs'.resolve path = .ok place := by
  rw [resolve_eq_ok] at hpath ⊢
  obtain ⟨hne, hnull, hlong, hwalk⟩ := hpath
  rw [startOf, h.workingDirectory, ← startOf]
  exact ⟨hne, hnull, hlong, h.walkThrough hwalk⟩

theorem SharesDirectories.opens (h : fs.SharesDirectories fs') (hopens : fs.Opens path here) :
    fs'.Opens path here :=
  ⟨h.resolve hopens.resolve, (h.directories here).mpr hopens.directory⟩

/-- A text is read in both file systems if the same bytes stand where its path leads. -/
theorem SharesDirectories.readText (h : fs.SharesDirectories fs') {text : Text}
    (hplace : fs.resolve path = .ok place)
    (hbytes : ∀ bytes, Node.at? place fs.root = some (.file bytes) →
      Node.at? place fs'.root = some (.file bytes))
    (htext : fs.readText path = .ok text) : fs'.readText path = .ok text := by
  obtain ⟨other, hholds⟩ := exists_holds htext
  have hother := resolve_plain hplace hholds.resolve
  subst hother
  have hholds' : fs'.Holds path other text := ⟨h.resolve hholds.resolve, hbytes _ hholds.at?⟩
  exact hholds'.readText

theorem Opens.ne_nil (h : fs.Opens path here) : path ≠ [] :=
  (resolve_eq_ok.mp h.resolve).1

/-- The names in a directory are those under which something stands. -/
theorem Opens.exists_names (h : fs.Opens path here) : ∃ names, fs.names path = .ok names ∧
    names.Nodup ∧ ∀ name, name ∈ names ↔ ∃ n, Node.at? (here ++ [name]) fs.root = some n := by
  obtain ⟨entries, hat⟩ := h.directory
  refine ⟨_, names_eq_ok.mpr ⟨entries, find_eq_ok.mpr ⟨here, h.resolve, hat⟩, rfl⟩,
    nodup_eraseDups _, fun name => ?_⟩
  rw [List.mem_eraseDups, Node.at?_append_singleton, hat]
  change _ ↔ ∃ n, entries.lookup name = some n
  rw [← Option.isSome_iff_exists, List.lookup_isSome_iff]
  simp [@eq_comm _ name]

/-- Without links a component leads one step on from a directory. -/
theorem Opens.eq_descend (h : fs.Opens path here) (hplain : fs.root.isPlain) (hslash : '/' ∉ name)
    (hfound : fs.resolve (Path.join path name) = .ok place) :
    place = if name = [] then here else descend here name := by
  rw [eq_landing_of_resolve hplain hfound, landing_join h.ne_nil hslash,
    ← eq_landing_of_resolve hplain h.resolve]

/-- Without links a component that does not lead to a directory is a name. -/
theorem Opens.isName (h : fs.Opens path here) (hplain : fs.root.isPlain) (hslash : '/' ∉ name)
    (hfound : fs.resolve (Path.join path name) = .ok place) (hfile : ¬ fs.HasDirectory place) :
    Path.IsName name := by
  have hplace := h.eq_descend hplain hslash hfound
  obtain ⟨entries, hat⟩ := h.directory
  refine ⟨?_, ?_, ?_, hslash⟩
  · rintro rfl
    exact hfile (hplace ▸ h.directory)
  · rintro rfl
    exact hfile (hplace ▸ h.directory)
  · rintro rfl
    obtain ⟨n, hn, hdir⟩ := Node.isDirectory_at?_dropLast hat rfl
    cases n with
    | file bytes => cases hdir
    | link target => cases hdir
    | directory inside => exact hfile (hplace ▸ ⟨inside, hn⟩)

theorem Opens.eq_append (h : fs.Opens path here) (hplain : fs.root.isPlain)
    (hname : Path.IsName name) (hfound : fs.resolve (Path.join path name) = .ok place) :
    place = here ++ [name] := by
  rw [h.eq_descend hplain hname.notMem_slash hfound, if_neg hname.ne_nil, descend,
    if_neg hname.ne_here, if_neg hname.ne_up]

theorem onward_component (hslash : '/' ∉ name) : onward name = [if name = [] then ['.'] else name] := by
  rw [onward]
  split
  · rfl
  · rename_i hne
    have hlast : name.getLast? ≠ some '/' := fun h => hslash (List.mem_of_getLast? h)
    rw [steps, Path.parts, Text.splitOn_of_notMem hslash, if_neg hlast]
    simp [hne]

/-- Without links the path of a component of a directory is not one of those that are missing. -/
theorem Opens.resolve_ne_missing (h : fs.Opens path here) (hplain : fs.root.isPlain)
    (hslash : '/' ∉ name) (other : Text) :
    fs.resolve (Path.join path name) ≠ .error (.access .missing other) := by
  obtain ⟨entries, hat⟩ := h.directory
  obtain ⟨left, hleft⟩ := exists_left h.resolve hat
  rw [resolve_eq (Path.join_ne_nil h.ne_nil name),
    hleft name (Path.not_isAbsolute_of_notMem hslash), onward_component hslash,
    walkThrough_cons_plain hplain hat, walkThrough_nil]
  generalize (if name = [] then ['.'] else name) = step
  split
  · simp
  split
  · simp
  split <;> simp [Except.mapError]

/-- Without links a component of a directory is missing only where nothing stands. -/
theorem Opens.exists_place_of_missing (h : fs.Opens path here) (hplain : fs.root.isPlain)
    (hslash : '/' ∉ name) (hmissing : fs.exists? (Path.join path name) = .ok false) :
    ∃ place, fs.resolve (Path.join path name) = .ok place ∧ Node.at? place fs.root = none := by
  cases hresolve : fs.resolve (Path.join path name) with
  | ok place =>
    refine ⟨place, rfl, ?_⟩
    cases hat : Node.at? place fs.root with
    | none => rfl
    | some n => exact absurd (find_eq_ok.mpr ⟨place, hresolve, hat⟩) (find_ne_ok_of_exists? hmissing n)
  | error fault =>
    rw [exists?, find, hresolve] at hmissing
    split at hmissing
    · cases hmissing
    · rename_i other heq
      cases heq
      exact absurd hresolve (h.resolve_ne_missing hplain hslash other)
    · cases hmissing

theorem exists?_of_find {n : Node} (h : fs.find path = .ok n) : fs.exists? path = .ok true := by
  rw [exists?, h]

theorem exists?_of_at?_eq_none (hplace : fs.resolve path = .ok place)
    (hat : Node.at? place fs.root = none) : fs.exists? path = .ok false := by
  have hfind : fs.find path = .error (.access .missing path) := by
    simp [find, hplace, hat, bind, Except.bind]
  rw [exists?, hfind]

end

end DocTree.FileSystem
