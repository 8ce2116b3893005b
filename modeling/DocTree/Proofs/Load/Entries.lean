import DocTree.Proofs.Load.Cover

/-!
# The entries of a directory

A directory is loaded with those of its entries that have something to index, and what that is can be
told from the file system alone: a Markdown file, or a directory from which a file that is to be
indexed can be reached. An entry is left out only after it has been read, and so are the directories
that hold nothing else, up to any level.
-/
namespace DocTree

namespace FileSystem

def IsDirectory (fs : FileSystem) (path : Text) : Prop :=
  ∃ entries, fs.find path = .ok (.directory entries)

/-- From a directory a file that is to be indexed can be reached: the document that represents the
directory, a Markdown file in it, or such a file from one of the directories in it. No name on the way
is hidden. -/
inductive HasIndexable (s : Settings) (fs : FileSystem) : Text → Prop
  | root {dir : Text} (hroot : fs.exists? (Path.join dir s.rootDocument) = .ok true) :
      HasIndexable s fs dir
  | file {dir name : Text} {names : List Text} (hnames : fs.names dir = .ok names)
      (hname : name ∈ names) (hvisible : name.head? ≠ some '.')
      (hfile : fs.IsFile (Path.join dir name)) (hmarkdown : s.isMarkdown (Path.join dir name)) :
      HasIndexable s fs dir
  | inside {dir name : Text} {names : List Text} (hnames : fs.names dir = .ok names)
      (hname : name ∈ names) (hvisible : name.head? ≠ some '.')
      (hdirectory : fs.IsDirectory (Path.join dir name))
      (hinside : HasIndexable s fs (Path.join dir name)) : HasIndexable s fs dir

/-- A path leads to a Markdown file, or to a directory with something to index. -/
def Listable (s : Settings) (fs : FileSystem) (path : Text) : Prop :=
  fs.IsFile path ∧ s.isMarkdown path ∨ fs.IsDirectory path ∧ fs.HasIndexable s path

variable {s : Settings} {fs : FileSystem} {path : Text}

theorem isDirectory_of_find {n : Node} (hn : fs.find path = .ok n) :
    fs.IsDirectory path ↔ n.isDirectory := by
  rw [IsDirectory, hn]
  cases n <;> simp [Node.isDirectory]

theorem IsFile.not_isDirectory (h : fs.IsFile path) : ¬ fs.IsDirectory path := by
  obtain ⟨bytes, hbytes⟩ := h
  rw [isDirectory_of_find hbytes]
  exact Bool.false_ne_true

theorem Listable.exists_find (h : Listable s fs path) : ∃ n, fs.find path = .ok n := by
  rcases h with ⟨⟨bytes, hbytes⟩, -⟩ | ⟨⟨entries, hentries⟩, -⟩
  · exact ⟨_, hbytes⟩
  · exact ⟨_, hentries⟩

/-- A directory has something to index if its own document is there or an entry has something. -/
theorem hasIndexable_iff : fs.HasIndexable s path ↔
    fs.exists? (Path.join path s.rootDocument) = .ok true ∨
      ∃ names, fs.names path = .ok names ∧ ∃ name ∈ names, name.head? ≠ some '.' ∧
        fs.Listable s (Path.join path name) := by
  constructor
  · intro h
    cases h with
    | root hroot => exact Or.inl hroot
    | file hnames hname hvisible hfile hmarkdown =>
      exact Or.inr ⟨_, hnames, _, hname, hvisible, Or.inl ⟨hfile, hmarkdown⟩⟩
    | inside hnames hname hvisible hdirectory hinside =>
      exact Or.inr ⟨_, hnames, _, hname, hvisible, Or.inr ⟨hdirectory, hinside⟩⟩
  · rintro (hroot | ⟨names, hnames, name, hname, hvisible, hlistable⟩)
    · exact .root hroot
    · rcases hlistable with ⟨hfile, hmarkdown⟩ | ⟨hdirectory, hinside⟩
      · exact .file hnames hname hvisible hfile hmarkdown
      · exact .inside hnames hname hvisible hdirectory hinside

end FileSystem

mutual

def Entry.directories : Entry → List Entry
  | .document _ => []
  | .directory filename title entries root =>
    .directory filename title entries root :: Entry.directoriesOf entries

def Entry.directoriesOf : List Entry → List Entry
  | [] => []
  | e :: rest => e.directories ++ Entry.directoriesOf rest

end

theorem Entry.directoriesOf_eq_flatMap (entries : List Entry) :
    directoriesOf entries = entries.flatMap directories := by
  induction entries with
  | nil => rfl
  | cons e rest ih => rw [directoriesOf, ih, List.flatMap_cons]

/-- An entry is what a path leads to: a Markdown file that has been read, or a directory with
something to index. -/
def Entry.StandsFor (s : Settings) (fs : FileSystem) (path : Text) : Entry → Prop
  | .document d => d.filename = path ∧ d.IsRead s fs ∧ fs.IsFile path ∧ s.isMarkdown path
  | .directory filename .. => filename = path ∧ fs.IsDirectory path ∧ fs.HasIndexable s path

/-- A directory in order: an entry for each of its names that is to be listed, and its own document
if it has one. -/
structure Entry.Lists (s : Settings) (fs : FileSystem) (path title : Text) (entries : List Entry)
    (root : Option Document) : Prop where
  entries : ∃ names shown, fs.names path = .ok names ∧
    (∀ name, name ∈ shown ↔ name ∈ names ∧ name ≠ s.rootDocument ∧ name.head? ≠ some '.' ∧
      fs.Listable s (Path.join path name)) ∧
    shown.Pairwise (fun a b => toLex (Text.fold a, a) < toLex (Text.fold b, b)) ∧
    List.Forall₂ (fun name e => e.StandsFor s fs (Path.join path name)) shown entries
  isSome_root : root.isSome ↔ fs.exists? (Path.join path s.rootDocument) = .ok true
  root_isRead : ∀ d ∈ root, d.filename = Path.join path s.rootDocument ∧ d.IsRead s fs
  title : title = (root.map Document.title).getD (Path.baseName (Path.normal path))

namespace Listing

/-- Names that differ stand in strict order. -/
theorem sooner_and_ne {a b : Text} (h : Sooner a b) (hne : a ≠ b) :
    toLex (Text.fold a, a) < toLex (Text.fold b, b) := by
  apply lt_of_le_of_ne (sooner_iff.mp h)
  intro heq
  exact hne (Prod.mk.inj (toLex.injective heq)).2

end Listing

namespace Load

open Listing

variable {s : Settings} {fs : FileSystem} {path : Text} {e : Entry} {root : Option Document}
  {directory : Text → Traced Entry}

theorem isSome_rootDocument (h : (rootDocument s fs path).outcome = .ok root) :
    root.isSome ↔ fs.exists? (Path.join path s.rootDocument) = .ok true := by
  cases root with
  | none => simp [exists?_of_rootDocument h]
  | some d => simp [(document_of_rootDocument h).1]

/-- Whether an entry is listed can be told from the file system, if it can of directories. -/
theorem isListed_entry_iff
    (hdirectory : ∀ e, (directory path).outcome = .ok e → (isListed s e ↔ fs.HasIndexable s path))
    (he : (entry s fs directory path).outcome = .ok e) : isListed s e ↔ fs.Listable s path := by
  obtain ⟨n, hn, ⟨hisdir, he⟩ | ⟨hisdir, he⟩⟩ := entry_eq_ok he
  · have hdir := (FileSystem.isDirectory_of_find hn).mpr hisdir
    have hnofile : ¬ fs.IsFile path := fun hfile => hfile.not_isDirectory hdir
    rw [hdirectory e he, FileSystem.Listable]
    simp [hdir, hnofile]
  · have hnodir : ¬ fs.IsDirectory path := by rwa [FileSystem.isDirectory_of_find hn]
    obtain ⟨d, rfl, hfilename, ⟨hmarkdown, hread⟩ | ⟨hmarkdown, -⟩⟩ := file_eq_ok he
    · have hfile := hread.isFile hfilename hn
      rw [isListed, hfilename, FileSystem.Listable]
      simp [hfile, hmarkdown]
    · rw [isListed, hfilename, FileSystem.Listable]
      simp [hmarkdown, hnodir]

/-- A directory is listed exactly if a file that is to be indexed can be reached from it. -/
theorem isListed_directoryWithin_iff {room : Nat}
    (he : (directoryWithin s fs room path).outcome = .ok e) :
    isListed s e ↔ fs.HasIndexable s path := by
  induction room generalizing path e with
  | zero => cases he
  | succ room ih =>
    obtain ⟨names, root, loaded, hnames, hroot, hloaded, rfl⟩ := directoryWithin_eq_ok.mp he
    have hentries : ∀ name e, (entry s fs (directoryWithin s fs room) (Path.join path name)).outcome =
        .ok e → (isListed s e ↔ fs.Listable s (Path.join path name)) :=
      fun _ _ he => isListed_entry_iff (fun _ he => ih he) he
    have hown : isListed s (.directory path ((root.map Document.title).getD
        (Path.baseName (Path.normal path))) (loaded.filter (isListed s)) root) ↔
        root.isSome ∨ ∃ e ∈ loaded, isListed s e := by
      simp [isListed]
    rw [hown, FileSystem.hasIndexable_iff, isSome_rootDocument hroot]
    constructor
    · rintro (hfound | ⟨e, hmem, hlisted⟩)
      · exact Or.inl hfound
      · obtain ⟨name, hname, he⟩ := exists_of_mem_mapM hloaded e hmem
        obtain ⟨hname, -, hvisible⟩ := mem_sort_visible.mp hname
        exact Or.inr ⟨names, hnames, name, hname, hvisible, (hentries name e he).mp hlisted⟩
    · rintro (hfound | ⟨names', hnames', name, hname, hvisible, hlistable⟩)
      · exact Or.inl hfound
      · rw [hnames] at hnames'
        cases hnames'
        by_cases hrootname : name = s.rootDocument
        · -- what has the name of the directory's own document is that document
          subst hrootname
          obtain ⟨n, hn⟩ := hlistable.exists_find
          exact Or.inl (by rw [FileSystem.exists?, hn])
        · obtain ⟨e, hmem, he⟩ :=
            exists_ok_of_mapM hloaded name (mem_sort_visible.mpr ⟨hname, hrootname, hvisible⟩)
          exact Or.inr ⟨e, hmem, (hentries name e he).mpr hlistable⟩

/-- Whether an entry is listed can be told from the file system. -/
theorem isListed_iff {room : Nat} (he : (entry s fs (directoryWithin s fs room) path).outcome = .ok e) :
    isListed s e ↔ fs.Listable s path :=
  isListed_entry_iff (fun _ he => isListed_directoryWithin_iff he) he

/-- An entry that is listed is what its path leads to. -/
theorem standsFor_entry {room : Nat}
    (he : (entry s fs (directoryWithin s fs room) path).outcome = .ok e)
    (hlistable : fs.Listable s path) : e.StandsFor s fs path := by
  have hlisted := (isListed_iff he).mpr hlistable
  obtain ⟨n, hn, ⟨hisdir, he⟩ | ⟨hisdir, he⟩⟩ := entry_eq_ok he
  · obtain ⟨title, entries, root, rfl⟩ := exists_of_directoryWithin he
    exact ⟨rfl, (FileSystem.isDirectory_of_find hn).mpr hisdir,
      (isListed_directoryWithin_iff he).mp hlisted⟩
  · obtain ⟨d, rfl, hfilename, ⟨hmarkdown, hread⟩ | ⟨hmarkdown, rfl⟩⟩ := file_eq_ok he
    · exact ⟨hfilename, hread, hread.isFile hfilename hn, hmarkdown⟩
    · exact absurd hlisted hmarkdown

section

open Classical

noncomputable def listable (s : Settings) (fs : FileSystem) (path : Text) (names : List Text) :
    List Text :=
  names.filter fun name => fs.Listable s (Path.join path name)

theorem mem_listable {names : List Text} {name : Text} :
    name ∈ listable s fs path names ↔ name ∈ names ∧ fs.Listable s (Path.join path name) := by
  rw [listable, List.mem_filter, decide_eq_true_eq]

/-- The entries that are kept once they have been read are those of the names that are to be listed. -/
theorem mapM_listable {room : Nat} {names : List Text} {loaded : List Entry}
    (h : (names.mapM fun name =>
      (entry s fs (directoryWithin s fs room) (Path.join path name)).outcome) = .ok loaded) :
    ((listable s fs path names).mapM fun name =>
      (entry s fs (directoryWithin s fs room) (Path.join path name)).outcome) =
        .ok (loaded.filter (isListed s)) := by
  have hdropped : ∀ name ∈ names, ¬ decide (fs.Listable s (Path.join path name)) →
      ∀ e, (entry s fs (directoryWithin s fs room) (Path.join path name)).outcome = .ok e →
        ¬ isListed s e := by
    intro name _ hkeep e he
    rw [isListed_iff he]
    simpa using hkeep
  obtain ⟨kept, hkept, hsame⟩ := exists_mapM_filter h hdropped
  have hall : kept.filter (isListed s) = kept := by
    rw [List.filter_eq_self]
    intro e he
    obtain ⟨name, hname, he⟩ := exists_of_mem_mapM hkept e he
    exact (isListed_iff he).mpr (mem_listable.mp hname).2
  rw [hall] at hsame
  rw [← hsame]
  exact hkept

end

/-- A directory is loaded with what is to be listed of it. -/
theorem lists_directoryWithin {room : Nat} {title : Text} {entries : List Entry}
    (h : (directoryWithin s fs room path).outcome = .ok (.directory path title entries root)) :
    Entry.Lists s fs path title entries root := by
  cases room with
  | zero => cases h
  | succ room =>
    obtain ⟨names, root, loaded, hnames, hroot, hloaded, heq⟩ := directoryWithin_eq_ok.mp h
    cases heq
    have hsorted := (pairwise_sort (visible s names)).and
      (nodup_sort_visible (FileSystem.nodup_names hnames))
    have hentries := forall₂_of_mapM (mapM_listable hloaded)
    constructor
    · refine ⟨names, listable s fs path (sort (visible s names)), hnames, ?_, ?_, ?_⟩
      · intro name
        rw [mem_listable, mem_sort_visible, and_assoc, and_assoc]
      · exact (hsorted.imp fun h => sooner_and_ne h.1 h.2).filter _
      · refine ((List.forall₂_and_left _ _).mpr ⟨fun _ h => h, hentries⟩).imp ?_
        rintro name e ⟨hname, he⟩
        exact standsFor_entry he (mem_listable.mp hname).2
    · exact isSome_rootDocument hroot
    · rintro d hd
      cases hd
      exact document_eq_ok (document_of_rootDocument hroot).2
    · rfl

/-- All directories of a loaded tree are loaded so, at every level. -/
theorem lists_of_mem_directories {room : Nat} {tree : Entry}
    (h : (directoryWithin s fs room path).outcome = .ok tree) {filename title : Text}
    {entries : List Entry} (hmem : .directory filename title entries root ∈ tree.directories) :
    Entry.Lists s fs filename title entries root := by
  induction room generalizing path tree with
  | zero => cases h
  | succ room ih =>
    obtain ⟨names, own, loaded, -, -, hloaded, rfl⟩ := directoryWithin_eq_ok.mp h
    rw [Entry.directories, Entry.directoriesOf_eq_flatMap] at hmem
    rcases List.mem_cons.mp hmem with heq | hmem
    · cases heq
      exact lists_directoryWithin h
    · obtain ⟨e, he, hmem⟩ := List.mem_flatMap.mp hmem
      obtain ⟨name, -, hentry⟩ := exists_of_mem_mapM hloaded e (List.mem_filter.mp he).1
      obtain ⟨n, -, ⟨-, hentry⟩ | ⟨-, hentry⟩⟩ := entry_eq_ok hentry
      · exact ih hentry hmem
      · obtain ⟨d, rfl, -⟩ := file_eq_ok hentry
        cases hmem

/-- Loading a directory gives that directory with all below it from which a file that is to be indexed
can be reached. At every level the entries are the Markdown files that are neither hidden nor the
directory's own document, and the directories that are not hidden and from which such a file can be
reached, in the strict order of their names: regardless of case first, and then as they are written.
The order in which the file system gives the names does not matter. -/
theorem directory_lists {dir : Text} {tree : Entry} (h : (Load.directory s fs dir).outcome = .ok tree) :
    (∃ title entries root, tree = .directory dir title entries root) ∧
      ∀ path title entries root, .directory path title entries root ∈ tree.directories →
        Entry.Lists s fs path title entries root :=
  ⟨exists_of_directoryWithin h, fun _ _ _ _ hmem => lists_of_mem_directories h hmem⟩

/-- Names that differ in case only, one that goes behind a small letter, a directory that holds an
empty one, one that holds another's own document, a hidden one and a file that is no Markdown. -/
theorem directory_lists_mixed :
    let fs : FileSystem := ⟨.directory [
      ("sub".toList, .directory [("deep".toList, .directory [("README.md".toList, .file [])])]),
      ("B.md".toList, .file []),
      ("empty".toList, .directory [("deep".toList, .directory [])]),
      ("a.md".toList, .file []),
      (".git".toList, .directory [("c.md".toList, .file [])]),
      ("a.txt".toList, .file []),
      ("A.md".toList, .file [])], []⟩
    ∃ title entries root,
      (Load.directory {} fs ".".toList).outcome = .ok (.directory ".".toList title entries root) ∧
      Entry.Lists {} fs ".".toList title entries root ∧
      entries.map Entry.filename =
        ["./A.md".toList, "./a.md".toList, "./B.md".toList, "./sub".toList] := by
  intro fs
  have hload : (Load.directory {} fs ".".toList).outcome.isOk := by decide +kernel
  obtain ⟨tree, htree⟩ := exists_ok_of_isOk hload
  obtain ⟨⟨title, entries, root, rfl⟩, hlists⟩ := directory_lists htree
  have hnames : (Load.directory {} fs ".".toList).outcome.toOption.map (fun
      | .document _ => []
      | .directory _ _ entries _ => entries.map Entry.filename) =
      some ["./A.md".toList, "./a.md".toList, "./B.md".toList, "./sub".toList] := by decide +kernel
  rw [htree] at hnames
  exact ⟨title, entries, root, htree, hlists _ _ _ _ (by simp [Entry.directories]),
    Option.some.inj hnames⟩

end Load

end DocTree
