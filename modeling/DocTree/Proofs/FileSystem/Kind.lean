import DocTree.Proofs.FileSystem.Place
import DocTree.Proofs.Outcome

/-!
# File systems that differ in what files say

What stands at a place without what a text there says: that it is a text, which bytes keep it from
being one, which names a directory holds, where a link points. File systems that agree in all this
lead every path to the same place and fail on the same paths.
-/
namespace DocTree

/-- What a node is, apart from what its text says. -/
inductive Kind where
  | file (fault : Option Text.Utf8.Fault)
  | directory (names : List Text)
  | link (target : Text)
  deriving DecidableEq

namespace Node

def kind : Node → Kind
  | file bytes =>
    match Text.Utf8.decode bytes with
    | .ok _ => .file none
    | .error fault => .file (some fault)
  | directory entries => .directory (entries.map (·.1))
  | link target => .link target

theorem kind_file {bytes : List UInt8} {s : Text} (h : Text.Utf8.decode bytes = .ok s) :
    (file bytes).kind = .file none := by
  simp [kind, h]

theorem kind_eq_directory {n : Node} {names : List Text} (h : n.kind = .directory names) :
    ∃ entries, n = directory entries ∧ entries.map (·.1) = names := by
  cases n with
  | file bytes =>
    rw [kind] at h
    split at h <;> cases h
  | link target => cases h
  | directory entries => exact ⟨entries, rfl, by simpa [kind] using h⟩

theorem kind_file_ne_directory (bytes : List UInt8) (names : List Text) :
    (file bytes).kind ≠ .directory names := by
  intro h
  obtain ⟨entries, hn, -⟩ := kind_eq_directory h
  cases hn

theorem kind_eq_link {n : Node} {target : Text} (h : n.kind = .link target) :
    n = link target := by
  cases n with
  | file bytes =>
    rw [kind] at h
    split at h <;> cases h
  | link target' =>
    cases h
    rfl
  | directory entries => cases h

theorem kind_eq_kind_file {n : Node} {bytes : List UInt8} (h : n.kind = (file bytes).kind) :
    ∃ bytes', n = file bytes' := by
  cases n with
  | file bytes' => exact ⟨bytes', rfl⟩
  | link target =>
    have := kind_eq_link h.symm
    cases this
  | directory entries => exact absurd h.symm (kind_file_ne_directory bytes _)

theorem isDirectory_of_kind_eq {n n' : Node} (h : n'.kind = n.kind) :
    n'.isDirectory = n.isDirectory := by
  cases n with
  | file bytes =>
    obtain ⟨bytes', rfl⟩ := kind_eq_kind_file h
    rfl
  | link target => rw [kind_eq_link h]
  | directory entries =>
    obtain ⟨entries', rfl, -⟩ := kind_eq_directory h
    rfl

/-- Files of one kind are texts alike, or fail alike to be one. -/
theorem decode_of_kind_eq {bytes bytes' : List UInt8} (h : (file bytes').kind = (file bytes).kind) :
    (Text.Utf8.decode bytes').map (fun _ => ()) = (Text.Utf8.decode bytes).map (fun _ => ()) := by
  rw [kind, kind] at h
  cases hb : Text.Utf8.decode bytes with
  | error fault =>
    cases hb' : Text.Utf8.decode bytes' with
    | error fault' => simp_all [Except.map]
    | ok s => simp_all
  | ok s =>
    cases hb' : Text.Utf8.decode bytes' with
    | error fault' => simp_all
    | ok s' => rfl

/-- Putting a text in place of a text changes no kind anywhere. -/
theorem kind_at?_put {place : List Text} {root : Node} {old new : List UInt8}
    (h : at? place root = some (file old)) (hkind : (file new).kind = (file old).kind)
    (other : List Text) :
    (at? other (put (file new) place root)).map kind = (at? other root).map kind := by
  induction place generalizing root other with
  | nil =>
    cases h
    cases other with
    | nil => simpa [at?, put] using hkind
    | cons name rest => rfl
  | cons name rest ih =>
    obtain ⟨entries, child, rfl, hchild, hrest⟩ := exists_child_of_at? h
    rw [put_cons hchild]
    cases other with
    | nil => simp [at?, kind, names_putEntry hchild]
    | cons name' rest' =>
      rw [at?_cons, at?_cons, child?, child?, lookup_putEntry]
      by_cases hname : name' = name
      · subst hname
        rw [if_pos rfl, hchild]
        exact ih hrest rest'
      · rw [if_neg hname]

end Node

namespace FileSystem

/-- Two file systems agree in everything but what texts say. -/
structure Alike (fs fs' : FileSystem) : Prop where
  workingDirectory : fs'.workingDirectory = fs.workingDirectory
  kind : ∀ place, (Node.at? place fs'.root).map Node.kind = (Node.at? place fs.root).map Node.kind

theorem Alike.refl (fs : FileSystem) : fs.Alike fs :=
  ⟨rfl, fun _ => rfl⟩

theorem Alike.trans {fs fs' fs'' : FileSystem} (h : fs.Alike fs') (h' : fs'.Alike fs'') :
    fs.Alike fs'' :=
  ⟨h'.workingDirectory.trans h.workingDirectory, fun place => (h'.kind place).trans (h.kind place)⟩

section

variable {fs fs' : FileSystem}

theorem Alike.symm (h : fs.Alike fs') : fs'.Alike fs :=
  ⟨h.workingDirectory.symm, fun place => (h.kind place).symm⟩

theorem Alike.at?_eq_none (h : fs.Alike fs') {place : List Text}
    (hn : Node.at? place fs.root = none) : Node.at? place fs'.root = none := by
  have := h.kind place
  rw [hn] at this
  exact Option.map_eq_none_iff.mp this

theorem Alike.at?_eq_some (h : fs.Alike fs') {place : List Text} {n : Node}
    (hn : Node.at? place fs.root = some n) :
    ∃ n', Node.at? place fs'.root = some n' ∧ n'.kind = n.kind := by
  have := h.kind place
  rw [hn] at this
  exact Option.map_eq_some_iff.mp this

/-- What a directory holds under a name is none, a link or neither in both file systems. -/
theorem Alike.lookup (h : fs.Alike fs') {place : List Text} {entries entries' : List (Text × Node)}
    (he : Node.at? place fs.root = some (.directory entries))
    (he' : Node.at? place fs'.root = some (.directory entries')) (name : Text) :
    (entries'.lookup name).map Node.kind = (entries.lookup name).map Node.kind := by
  have := h.kind (place ++ [name])
  rw [Node.at?_append_singleton, Node.at?_append_singleton, he, he'] at this
  exact this

/-- Steps lead to the same place, if those behind a link do. -/
theorem Alike.walk (h : fs.Alike fs')
    {follow follow' : List Text → List Text → Except Cause (List Text)}
    (hfollow : ∀ place steps, follow' place steps = follow place steps) (place steps : List Text) :
    FileSystem.walk fs'.root follow' place steps = FileSystem.walk fs.root follow place steps := by
  induction steps generalizing place with
  | nil => rfl
  | cons s rest ih =>
    rw [FileSystem.walk, FileSystem.walk]
    cases hn : Node.at? place fs.root with
    | none => rw [h.at?_eq_none hn]
    | some n =>
      obtain ⟨n', hn', hkind⟩ := h.at?_eq_some hn
      rw [hn']
      cases n with
      | file bytes =>
        obtain ⟨bytes', rfl⟩ := Node.kind_eq_kind_file hkind
        rfl
      | link target =>
        rw [Node.kind_eq_link hkind]
      | directory entries =>
        obtain ⟨entries', rfl, -⟩ := Node.kind_eq_directory hkind
        have hlookup := h.lookup hn hn' s
        simp only [ih]
        cases hs : entries.lookup s with
        | none =>
          rw [hs, Option.map_none, Option.map_eq_none_iff] at hlookup
          rw [hlookup]
        | some child =>
          rw [hs] at hlookup
          obtain ⟨child', hs', hchild⟩ := Option.map_eq_some_iff.mp hlookup
          rw [hs']
          cases child with
          | file bytes =>
            obtain ⟨bytes', rfl⟩ := Node.kind_eq_kind_file hchild
            rfl
          | link target =>
            rw [Node.kind_eq_link hchild]
            simp only [hfollow]
          | directory below =>
            obtain ⟨below', rfl, -⟩ := Node.kind_eq_directory hchild
            rfl

theorem Alike.walkThrough (h : fs.Alike fs') (links : Nat) (place steps : List Text) :
    FileSystem.walkThrough fs'.root links place steps =
      FileSystem.walkThrough fs.root links place steps := by
  induction links generalizing place steps with
  | zero => exact h.walk (fun _ _ => rfl) place steps
  | succ links ih => exact h.walk ih place steps

/-- A path leads to the same place. -/
theorem Alike.resolve (h : fs.Alike fs') (path : Text) : fs'.resolve path = fs.resolve path := by
  simp only [FileSystem.resolve, h.workingDirectory, h.walkThrough]

/-- A path leads to the same kind of thing, or fails in the same way. -/
theorem Alike.find (h : fs.Alike fs') (path : Text) :
    (fs'.find path).map Node.kind = (fs.find path).map Node.kind := by
  rw [FileSystem.find, FileSystem.find, h.resolve]
  cases fs.resolve path with
  | error fault => rfl
  | ok place =>
    simp only [bind, Except.bind]
    cases hn : Node.at? place fs.root with
    | none => rw [h.at?_eq_none hn]
    | some n =>
      obtain ⟨n', hn', hkind⟩ := h.at?_eq_some hn
      rw [hn']
      exact congrArg Except.ok hkind

theorem Alike.exists? (h : fs.Alike fs') (path : Text) : fs'.exists? path = fs.exists? path := by
  rw [FileSystem.exists?, FileSystem.exists?]
  cases hn : fs.find path with
  | error fault => rw [eq_error_of_map_eq (h.find path) hn]
  | ok n =>
    obtain ⟨n', hn', -⟩ := exists_ok_of_map_eq (h.find path) hn
    rw [hn']

theorem Alike.names (h : fs.Alike fs') (path : Text) : fs'.names path = fs.names path := by
  rw [FileSystem.names, FileSystem.names]
  cases hn : fs.find path with
  | error fault => rw [eq_error_of_map_eq (h.find path) hn]
  | ok n =>
    obtain ⟨n', hn', hkind⟩ := exists_ok_of_map_eq (h.find path) hn
    rw [hn']
    cases n with
    | file bytes =>
      obtain ⟨bytes', rfl⟩ := Node.kind_eq_kind_file hkind
      rfl
    | link target => rw [Node.kind_eq_link hkind]
    | directory entries =>
      obtain ⟨entries', rfl, hnames⟩ := Node.kind_eq_directory hkind
      simp only [bind, Except.bind, hnames]

/-- A text is read where one was read before, and other files fail in the same way. -/
theorem Alike.readText (h : fs.Alike fs') (path : Text) :
    (fs'.readText path).map (fun _ => ()) = (fs.readText path).map (fun _ => ()) := by
  rw [FileSystem.readText, FileSystem.readText, FileSystem.readBytes, FileSystem.readBytes]
  cases hn : fs.find (Path.plain path) with
  | error fault => rw [eq_error_of_map_eq (h.find _) hn]
  | ok n =>
    obtain ⟨n', hn', hkind⟩ := exists_ok_of_map_eq (h.find _) hn
    simp only [bind, Except.bind, hn']
    cases n with
    | file bytes =>
      obtain ⟨bytes', rfl⟩ := Node.kind_eq_kind_file hkind
      have hdecode := Node.decode_of_kind_eq hkind
      simp only [pure, Except.pure]
      cases hb : Text.Utf8.decode bytes with
      | error fault => rw [eq_error_of_map_eq hdecode hb]
      | ok t =>
        obtain ⟨t', hb', -⟩ := exists_ok_of_map_eq hdecode hb
        rw [hb']
        rfl
    | link target => rw [Node.kind_eq_link hkind]
    | directory entries =>
      obtain ⟨entries', rfl, hnames⟩ := Node.kind_eq_directory hkind
      rfl

end

end FileSystem

end DocTree
