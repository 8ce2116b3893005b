import DocTree.Proofs.FileSystem.Shared
import DocTree.Proofs.Load.Cover
import DocTree.Run

/-!
# Files that loading leaves aside

A file that is looked at and not to be indexed is found under its path, and that is all: it is
dropped before the directory is listed, so neither its bytes nor that it is there shows in the tree.
File systems that differ in such files only are loaded alike, unless one of the files is not found,
as when its path is too long; then loading fails.
-/
namespace DocTree

/-- A file at a place below a directory is looked at and left aside, by its path: no name down to it
is hidden or that of a document that represents a directory, and it is no Markdown file. -/
structure Settings.LeavesAside (s : Settings) (dir : Text) (place : List Text) : Prop where
  visible : ∀ c ∈ place, c ≠ s.rootDocument ∧ c.head? ≠ some '.'
  other : ¬ s.isMarkdown (Path.below dir place)

namespace FileSystem

/-- What is looked at below a directory and left aside is found under its path. -/
def FindsAside (fs : FileSystem) (s : Settings) (dir : Text) (here : List Text) : Prop :=
  ∀ place bytes, s.LeavesAside dir place →
    Node.at? (here ++ place) fs.root = some (.file bytes) → ∃ n, fs.find (Path.below dir place) = .ok n

/-- Two file systems without links have the same directories, and below one of them the same files
that are to be indexed. -/
structure SharesIndexed (fs fs' : FileSystem) (s : Settings) (dir : Text) (here : List Text) : Prop where
  directories : fs.SharesDirectories fs'
  files : ∀ place bytes, s.Indexes dir place →
    (Node.at? (here ++ place) fs'.root = some (.file bytes) ↔
      Node.at? (here ++ place) fs.root = some (.file bytes))

variable {fs fs' : FileSystem} {s : Settings} {dir name : Text} {here : List Text}

theorem SharesIndexed.symm (h : fs.SharesIndexed fs' s dir here) : fs'.SharesIndexed fs s dir here :=
  ⟨h.directories.symm, fun place bytes hplace => (h.files place bytes hplace).symm⟩

theorem SharesIndexed.join (h : fs.SharesIndexed fs' s dir here) (hhidden : name.head? ≠ some '.') :
    fs.SharesIndexed fs' s (Path.join dir name) (here ++ [name]) where
  directories := h.directories
  files := by
    intro place bytes hplace
    have hne : place ≠ [] := by
      rintro rfl
      obtain ⟨-, last, hlast, -⟩ := hplace
      cases hlast
    rw [List.append_assoc]
    exact h.files (name :: place) bytes ((Settings.indexes_cons hne).mpr ⟨hhidden, hplace⟩)

theorem FindsAside.join (h : fs.FindsAside s dir here) (hroot : name ≠ s.rootDocument)
    (hhidden : name.head? ≠ some '.') : fs.FindsAside s (Path.join dir name) (here ++ [name]) := by
  intro place bytes hplace hat
  rw [List.append_assoc] at hat
  refine h (name :: place) bytes ⟨?_, hplace.other⟩ hat
  intro c hc
  rcases List.mem_cons.mp hc with rfl | hc
  · exact ⟨hroot, hhidden⟩
  · exact hplace.visible c hc

/-- A file to be indexed stands in both file systems, a directory too. -/
theorem SharesIndexed.at?_isSome (h : fs.SharesIndexed fs' s dir here) {n : Node}
    (hn : Node.at? (here ++ [name]) fs.root = some n)
    (hkept : fs.HasDirectory (here ++ [name]) ∨ s.Indexes dir [name]) :
    ∃ n', Node.at? (here ++ [name]) fs'.root = some n' := by
  rcases file_or_hasDirectory h.directories.plain hn with ⟨bytes, rfl⟩ | hdir
  · rcases hkept with ⟨entries, hat⟩ | hindexes
    · rw [hn] at hat
      cases hat
    · exact ⟨_, (h.files [name] bytes hindexes).mpr hn⟩
  · obtain ⟨entries, hat⟩ := (h.directories.directories _).mpr hdir
    exact ⟨_, hat⟩

end FileSystem

namespace Load

variable {fs fs' : FileSystem} {s : Settings} {dir name : Text} {here : List Text}

theorem isName_of_visible {names : List Text} (hplain : fs.root.isPlain)
    (hnames : fs.names dir = .ok names) (hname : name ∈ names) (hhidden : name.head? ≠ some '.') :
    Path.IsName name := by
  obtain ⟨-, hcomponents, -, -⟩ := FileSystem.isDirectory_of_names hplain hnames
  obtain ⟨hne, hslash⟩ := hcomponents name hname
  refine ⟨hne, ?_, ?_, hslash⟩
  · rintro rfl
    exact hhidden rfl
  · rintro rfl
    exact hhidden rfl

/-- A document that is read in one file system is read in another if it is to be indexed. -/
theorem document_shared (h : fs.SharesIndexed fs' s dir here) (hopens : fs.Opens dir here)
    (hindexes : s.Indexes dir [name]) (hname : Path.IsName name) {n : Node}
    (hn : fs.find (Path.join dir name) = .ok n) {d : Document}
    (hd : (document s fs (Path.join dir name)).outcome = .ok d) :
    (document s fs' (Path.join dir name)).outcome = .ok d ∧ fs'.IsFile (Path.join dir name) := by
  rw [outcome_document] at hd ⊢
  obtain ⟨text, htext, rfl⟩ := map_eq_ok.mp hd
  obtain ⟨bytes, hfile⟩ := FileSystem.isFile_of_readText hn htext
  obtain ⟨place, hplace, hat⟩ := FileSystem.find_eq_ok.mp hfile
  have heq := hopens.eq_append h.directories.plain hname hplace
  subst heq
  have hsame : ∀ bytes, Node.at? (here ++ [name]) fs.root = some (.file bytes) →
      Node.at? (here ++ [name]) fs'.root = some (.file bytes) :=
    fun bytes => (h.files [name] bytes hindexes).mpr
  rw [h.directories.readText hplace hsame htext]
  exact ⟨rfl, bytes, FileSystem.find_eq_ok.mpr ⟨_, h.directories.resolve hplace, hsame bytes hat⟩⟩

/-- A directory has the same document of its own in both file systems, or none. -/
theorem rootDocument_shared (h : fs.SharesIndexed fs' s dir here) (hopens : fs.Opens dir here)
    (hslash : '/' ∉ s.rootDocument) {root : Option Document}
    (hroot : (rootDocument s fs dir).outcome = .ok root) :
    (rootDocument s fs' dir).outcome = .ok root := by
  have hindexes : s.Indexes dir [s.rootDocument] := Settings.indexes_singleton.mpr (.inl rfl)
  have hplain := h.directories.plain
  rw [outcome_rootDocument]
  cases root with
  | none =>
    obtain ⟨place, hplace, hat⟩ :=
      hopens.exists_place_of_missing hplain hslash (exists?_of_rootDocument hroot)
    have hnone : ¬ fs.HasDirectory place := by
      rintro ⟨entries, hdir⟩
      rw [hat] at hdir
      cases hdir
    have hat' : Node.at? place fs'.root = none := by
      rw [Option.eq_none_iff_forall_ne_some]
      intro n hn
      rcases FileSystem.file_or_hasDirectory h.directories.plain' hn with ⟨bytes, rfl⟩ | hdir
      · have hname := hopens.isName hplain hslash hplace hnone
        have heq := hopens.eq_append hplain hname hplace
        subst heq
        rw [h.files [s.rootDocument] bytes hindexes, hat] at hn
        cases hn
      · exact hnone ((h.directories.directories place).mp hdir)
    rw [FileSystem.exists?_of_at?_eq_none (h.directories.resolve hplace) hat']
    rfl
  | some d =>
    obtain ⟨hfound, hd⟩ := document_of_rootDocument hroot
    obtain ⟨n, hn⟩ := FileSystem.exists_find_of_exists? hfound
    obtain ⟨text, htext, -⟩ := map_eq_ok.mp ((outcome_document s fs _).symm.trans hd)
    have hname := (FileSystem.isFile_of_readText hn htext).isName hopens.ne_nil hslash
    obtain ⟨hd', bytes, hfile⟩ := document_shared h hopens hindexes hname hn hd
    rw [FileSystem.exists?_of_find hfile]
    exact bind_eq_ok.mpr ⟨true, rfl, bind_eq_ok.mpr ⟨d, hd', rfl⟩⟩

/-- What a name leads to is kept when it is a directory or a Markdown file. -/
def kept (s : Settings) (fs : FileSystem) (dir : Text) (here : List Text) (name : Text) : Bool :=
  s.isMarkdown (Path.join dir name) || (Node.at? (here ++ [name]) fs.root).any Node.isDirectory

theorem kept_iff : kept s fs dir here name ↔
    s.isMarkdown (Path.join dir name) ∨ fs.HasDirectory (here ++ [name]) := by
  rw [kept, Bool.or_eq_true]
  refine or_congr_right ?_
  rw [FileSystem.HasDirectory]
  cases Node.at? (here ++ [name]) fs.root with
  | none => simp
  | some n => cases n <;> simp [Node.isDirectory]

theorem kept_shared (h : fs.SharesDirectories fs') : kept s fs' dir here = kept s fs dir here := by
  funext name
  rw [Bool.eq_iff_iff, kept_iff, kept_iff, h.directories]

/-- An entry that is kept is read alike in both file systems, if directories are. -/
theorem entry_shared (h : fs.SharesIndexed fs' s dir here) (hopens : fs.Opens dir here)
    (hname : Path.IsName name) (hhidden : name.head? ≠ some '.')
    (hkept : kept s fs dir here name) {directory directory' : Text → Traced Entry} {e : Entry}
    (hdirectory : fs.Opens (Path.join dir name) (here ++ [name]) →
      (directory (Path.join dir name)).outcome = .ok e →
        (directory' (Path.join dir name)).outcome = .ok e)
    (he : (entry s fs directory (Path.join dir name)).outcome = .ok e) :
    (entry s fs' directory' (Path.join dir name)).outcome = .ok e := by
  obtain ⟨n, hn, hcase⟩ := entry_eq_ok he
  obtain ⟨place, hplace, hat⟩ := FileSystem.find_eq_ok.mp hn
  have heq := hopens.eq_append h.directories.plain hname hplace
  subst heq
  rw [outcome_entry]
  rcases hcase with ⟨hdir, he⟩ | ⟨hfile, he⟩
  · have hopens' : fs.Opens (Path.join dir name) (here ++ [name]) := by
      cases n with
      | file bytes => cases hdir
      | link target => cases hdir
      | directory entries => exact ⟨hplace, entries, hat⟩
    obtain ⟨hresolve, entries, hat'⟩ := h.directories.opens hopens'
    rw [FileSystem.find_eq_ok.mpr ⟨_, hresolve, hat'⟩]
    exact hdirectory hopens' he
  · have hmarkdown : s.isMarkdown (Path.join dir name) := by
      refine (kept_iff.mp hkept).resolve_right ?_
      rintro ⟨entries, hdir⟩
      rw [hat] at hdir
      cases hdir
      exact hfile rfl
    rw [outcome_file, if_pos hmarkdown] at he
    obtain ⟨d, hd, he⟩ := bind_eq_ok.mp he
    have hindexes : s.Indexes dir [name] :=
      Settings.indexes_singleton.mpr (.inr ⟨hhidden, hmarkdown⟩)
    obtain ⟨hd', bytes, hfound⟩ := document_shared h hopens hindexes hname hn hd
    rw [hfound]
    change (file s fs' (Path.join dir name)).outcome = _
    rw [outcome_file, if_pos hmarkdown, hd']
    exact he

/-- What is not kept of a directory is a file that is not listed, and it is read if it is found. -/
theorem entry_aside (hopens : fs.Opens dir here) (hplain : fs.root.isPlain)
    (hname : Path.IsName name) (hkept : ¬ kept s fs dir here name)
    (directory : Text → Traced Entry) {n : Node} (hn : fs.find (Path.join dir name) = .ok n) :
    (entry s fs directory (Path.join dir name)).outcome = .ok (.document (other (Path.join dir name))) ∧
      ¬ Listing.isListed s (.document (other (Path.join dir name))) := by
  rw [kept_iff, not_or] at hkept
  obtain ⟨place, hplace, hat⟩ := FileSystem.find_eq_ok.mp hn
  have heq := hopens.eq_append hplain hname hplace
  subst heq
  have hfile : ¬ n.isDirectory := by
    cases n with
    | directory entries => exact absurd ⟨entries, hat⟩ hkept.2
    | file bytes => simp [Node.isDirectory]
    | link target => simp [Node.isDirectory]
  refine ⟨?_, hkept.1⟩
  rw [outcome_entry, hn]
  change (if n.isDirectory then _ else (file s fs (Path.join dir name)).outcome) = _
  rw [if_neg hfile, outcome_file, if_neg hkept.1]

/-- The names that are kept of a directory are the same in both file systems, in one order. -/
theorem filter_kept_shared (h : fs.SharesIndexed fs' s dir here) (hopens : fs.Opens dir here)
    {names names' : List Text} (hnames : fs.names dir = .ok names)
    (hnames' : fs'.names dir = .ok names') :
    (Listing.sort (Listing.visible s names)).filter (kept s fs dir here) =
      (Listing.sort (Listing.visible s names')).filter (kept s fs dir here) := by
  obtain ⟨held, hheld, hnodup, hmem⟩ := hopens.exists_names
  obtain ⟨held', hheld', hnodup', hmem'⟩ := (h.directories.opens hopens).exists_names
  rw [hnames] at hheld
  rw [hnames'] at hheld'
  cases hheld
  cases hheld'
  apply Listing.filter_sort_visible_congr hnodup hnodup'
  intro name _ hhidden hkept
  have hindexes : fs.HasDirectory (here ++ [name]) ∨ s.Indexes dir [name] :=
    (kept_iff.mp hkept).symm.imp_right fun hmarkdown =>
      Settings.indexes_singleton.mpr (.inr ⟨hhidden, hmarkdown⟩)
  rw [hmem, hmem']
  constructor
  · rintro ⟨n, hn⟩
    exact h.at?_isSome hn hindexes
  · rintro ⟨n, hn⟩
    exact h.symm.at?_isSome hn (hindexes.imp_left (h.directories.directories _).mpr)

/-- What is not kept is dropped from the entries that were read. -/
theorem exists_listed (hopens : fs.Opens dir here) (hplain : fs.root.isPlain) {names : List Text}
    (hnames : fs.names dir = .ok names) {directory : Text → Traced Entry} {loaded : List Entry}
    (hloaded : (Listing.sort (Listing.visible s names)).mapM
      (fun name => (entry s fs directory (Path.join dir name)).outcome) = .ok loaded) :
    ∃ listed, ((Listing.sort (Listing.visible s names)).filter (kept s fs dir here)).mapM
      (fun name => (entry s fs directory (Path.join dir name)).outcome) = .ok listed ∧
      listed.filter (Listing.isListed s) = loaded.filter (Listing.isListed s) := by
  apply exists_mapM_filter hloaded
  intro name hname hkept e he
  obtain ⟨hmem, -, hhidden⟩ := Listing.mem_sort_visible.mp hname
  obtain ⟨n, hn, -⟩ := entry_eq_ok he
  obtain ⟨hread, hdropped⟩ := entry_aside hopens hplain
    (isName_of_visible hplain hnames hmem hhidden) hkept directory hn
  rw [hread] at he
  cases he
  exact hdropped

/-- Where all is found, what is not kept is read besides, and dropped. -/
theorem exists_loaded (hopens : fs.Opens dir here) (hplain : fs.root.isPlain)
    (hfinds : fs.FindsAside s dir here) {names : List Text} (hnames : fs.names dir = .ok names)
    {directory : Text → Traced Entry} {listed : List Entry}
    (hlisted : ((Listing.sort (Listing.visible s names)).filter (kept s fs dir here)).mapM
      (fun name => (entry s fs directory (Path.join dir name)).outcome) = .ok listed) :
    ∃ loaded, (Listing.sort (Listing.visible s names)).mapM
      (fun name => (entry s fs directory (Path.join dir name)).outcome) = .ok loaded ∧
      loaded.filter (Listing.isListed s) = listed.filter (Listing.isListed s) := by
  obtain ⟨held, hheld, -, hat⟩ := hopens.exists_names
  rw [hnames] at hheld
  cases hheld
  apply exists_mapM_of_filter hlisted
  intro name hname hkept
  obtain ⟨hmem, hne, hhidden⟩ := Listing.mem_sort_visible.mp hname
  obtain ⟨n, hn⟩ := (hat name).mp hmem
  obtain ⟨hmarkdown, hnodir⟩ := not_or.mp (mt kept_iff.mpr hkept)
  obtain ⟨bytes, rfl⟩ := (FileSystem.file_or_hasDirectory hplain hn).resolve_right hnodir
  obtain ⟨n, hfound⟩ := hfinds [name] bytes ⟨by simp [hne, hhidden], hmarkdown⟩ hn
  exact ⟨_, entry_aside hopens hplain (isName_of_visible hplain hnames hmem hhidden) hkept
    directory hfound⟩

/-- A directory that is read in one file system is read alike in another, if what is left aside there
is found. -/
theorem directoryWithin_shared (hslash : '/' ∉ s.rootDocument) {room : Nat} {e : Entry}
    (h : fs.SharesIndexed fs' s dir here) (hopens : fs.Opens dir here)
    (hfinds : fs'.FindsAside s dir here) (he : (directoryWithin s fs room dir).outcome = .ok e) :
    (directoryWithin s fs' room dir).outcome = .ok e := by
  induction room generalizing dir here e with
  | zero => cases he
  | succ room ih =>
    obtain ⟨names, root, loaded, hnames, hroot, hloaded, rfl⟩ := directoryWithin_eq_ok.mp he
    have hopens' := h.directories.opens hopens
    obtain ⟨names', hnames', -, -⟩ := hopens'.exists_names
    obtain ⟨listed, hlisted, hfilter⟩ := exists_listed hopens h.directories.plain hnames hloaded
    have hlisted' : ((Listing.sort (Listing.visible s names)).filter (kept s fs dir here)).mapM
        (fun name => (entry s fs' (directoryWithin s fs' room) (Path.join dir name)).outcome) = .ok listed := by
      apply mapM_eq_ok_of_imp hlisted
      intro name hname e he
      obtain ⟨hname, hkept⟩ := List.mem_filter.mp hname
      obtain ⟨hmem, hne, hhidden⟩ := Listing.mem_sort_visible.mp hname
      have hisname := isName_of_visible h.directories.plain hnames hmem hhidden
      apply entry_shared h hopens hisname hhidden hkept ?_ he
      intro hbelow hdirectory
      exact ih (h.join hhidden) hbelow (hfinds.join hne hhidden) hdirectory
    rw [filter_kept_shared h hopens hnames hnames', ← kept_shared h.directories] at hlisted'
    obtain ⟨loaded', hloaded', hfilter'⟩ :=
      exists_loaded hopens' h.directories.plain' hfinds hnames' hlisted'
    rw [directoryWithin_eq_ok]
    refine ⟨names', root, loaded', hnames', rootDocument_shared h hopens hslash hroot, hloaded', ?_⟩
    rw [hfilter', hfilter]

/-- A directory that is read has found what it leaves aside. -/
theorem findsAside_of_directoryWithin (hplain : fs.root.isPlain) {room : Nat} {e : Entry}
    (hopens : fs.Opens dir here) (he : (directoryWithin s fs room dir).outcome = .ok e) :
    fs.FindsAside s dir here := by
  intro place bytes hplace hat
  induction room generalizing dir here e place with
  | zero => cases he
  | succ room ih =>
    obtain ⟨names, root, loaded, hnames, -, hloaded, -⟩ := directoryWithin_eq_ok.mp he
    obtain ⟨held, hheld, -, hmem⟩ := hopens.exists_names
    rw [hnames] at hheld
    cases hheld
    cases place with
    | nil =>
      obtain ⟨entries, hdir⟩ := hopens.directory
      rw [List.append_nil, hdir] at hat
      cases hat
    | cons name rest =>
      obtain ⟨hne, hhidden⟩ := hplace.visible name (by simp)
      rw [List.append_cons, Node.at?_append] at hat
      obtain ⟨n, hn, hrest⟩ := Option.bind_eq_some_iff.mp hat
      have hname : name ∈ names := (hmem name).mpr ⟨n, hn⟩
      obtain ⟨e, -, he⟩ := exists_ok_of_mapM hloaded name
        (Listing.mem_sort_visible.mpr ⟨hname, hne, hhidden⟩)
      obtain ⟨m, hm, hcase⟩ := entry_eq_ok he
      cases rest with
      | nil => exact ⟨m, hm⟩
      | cons next rest =>
        -- What stands further down stands in a directory, which has been read.
        obtain ⟨entries, child, rfl, -, -⟩ := Node.exists_child_of_at? hrest
        obtain ⟨there, hthere, hat'⟩ := FileSystem.find_eq_ok.mp hm
        have heq := hopens.eq_append hplain (isName_of_visible hplain hnames hname hhidden) hthere
        subst heq
        rw [hn] at hat'
        cases hat'
        rcases hcase with ⟨-, he⟩ | ⟨hfile, -⟩
        · have hbelow : s.LeavesAside (Path.join dir name) (next :: rest) :=
            ⟨fun c hc => hplace.visible c (by simp [hc]), hplace.other⟩
          refine ih ⟨hthere, entries, hn⟩ he _ hbelow ?_
          rw [Node.at?_append, hn]
          exact hrest
        · exact absurd rfl hfile

end Load

variable {s : Settings} {fs fs' : FileSystem} {dir : Text} {here : List Text} {tree : Entry}

/-- A path to a directory loads it. -/
theorem load_of_opens (hopens : fs.Opens dir here) :
    (load s fs dir).outcome = (Load.directory s fs dir).outcome := by
  obtain ⟨hresolve, entries, hat⟩ := hopens
  rw [outcome_load, FileSystem.find_eq_ok.mpr ⟨here, hresolve, hat⟩]
  rfl

/-- A directory is loaded alike from file systems with the same directories and the same files to be
indexed below it. -/
theorem load_shared (hslash : '/' ∉ s.rootDocument) (h : fs.SharesIndexed fs' s dir here)
    (hopens : fs.Opens dir here) (hfinds : fs'.FindsAside s dir here)
    (htree : (load s fs dir).outcome = .ok tree) : (load s fs' dir).outcome = .ok tree := by
  rw [load_of_opens hopens] at htree
  rw [load_of_opens (h.directories.opens hopens)]
  exact Load.directoryWithin_shared hslash h hopens hfinds htree

theorem plan_of_load (htree : (load s fs dir).outcome = .ok tree)
    (htree' : (load s fs' dir).outcome = .ok tree)
    (hcwd : fs'.workingDirectory = fs.workingDirectory) : plan s fs' dir = plan s fs dir := by
  rw [plan, plan, htree, htree', hcwd]

theorem exists_load_of_plan {edits : List FileEdit} (h : plan s fs dir = .ok edits) :
    ∃ tree, (load s fs dir).outcome = .ok tree := by
  rw [plan] at h
  cases htree : (load s fs dir).outcome with
  | ok tree => exact ⟨tree, rfl⟩
  | error fault =>
    rw [htree] at h
    cases h

/-- Files that are not to be indexed have no influence. From two file systems without links that have
the same directories and the same files to be indexed below a directory, it is loaded to the same tree
and with the same plan, or from neither, whatever other files there are; they only must be found where
they are looked at, and where a tree is loaded, they are. -/
theorem load_aside (s : Settings) (fs fs' : FileSystem) (dir : Text) (here : List Text)
    (hslash : '/' ∉ s.rootDocument) (hopens : fs.Opens dir here)
    (h : fs.SharesIndexed fs' s dir here) :
    (fs.FindsAside s dir here → fs'.FindsAside s dir here →
      (∀ tree, (load s fs' dir).outcome = .ok tree ↔ (load s fs dir).outcome = .ok tree) ∧
      ∀ edits, plan s fs' dir = .ok edits ↔ plan s fs dir = .ok edits) ∧
    ∀ tree, (load s fs dir).outcome = .ok tree → fs.FindsAside s dir here := by
  have hopens' := h.directories.opens hopens
  refine ⟨fun hfinds hfinds' => ?_, fun tree htree => ?_⟩
  · have hload : ∀ tree, (load s fs' dir).outcome = .ok tree ↔ (load s fs dir).outcome = .ok tree :=
      fun tree => ⟨load_shared hslash h.symm hopens' hfinds, load_shared hslash h hopens hfinds'⟩
    refine ⟨hload, fun edits => ?_⟩
    have hcwd := h.directories.workingDirectory
    constructor
    · intro hplan
      obtain ⟨tree, htree⟩ := exists_load_of_plan hplan
      rwa [← plan_of_load ((hload tree).mp htree) htree hcwd]
    · intro hplan
      obtain ⟨tree, htree⟩ := exists_load_of_plan hplan
      rwa [plan_of_load htree ((hload tree).mpr htree) hcwd]
  · rw [load_of_opens hopens] at htree
    exact Load.findsAside_of_directoryWithin h.directories.plain hopens htree

/-- In a directory of files only they stand, each under its name. -/
theorem Node.at?_of_files {entries : List (Text × Node)} {place : List Text} {n : Node}
    (hfiles : ∀ e ∈ entries, ∃ bytes, e.2 = .file bytes)
    (h : Node.at? place (.directory entries) = some n) :
    place = [] ∧ n = .directory entries ∨
      ∃ name bytes, place = [name] ∧ n = .file bytes ∧ entries.lookup name = some n := by
  cases place with
  | nil =>
    cases h
    exact .inl ⟨rfl, rfl⟩
  | cons name rest =>
    obtain ⟨_, child, heq, hchild, hrest⟩ := Node.exists_child_of_at? h
    cases heq
    obtain ⟨before, after, heq, -⟩ := List.lookup_eq_some_iff.mp hchild
    obtain ⟨bytes, rfl⟩ := hfiles (name, child) (by simp [heq])
    cases rest with
    | nil =>
      cases hrest
      exact .inr ⟨name, bytes, rfl, rfl, hchild⟩
    | cons next rest => cases hrest

section

variable {entries : List (Text × Node)} {place : List Text}

theorem FileSystem.hasDirectory_of_files (hfiles : ∀ e ∈ entries, ∃ bytes, e.2 = .file bytes) :
    FileSystem.HasDirectory { root := .directory entries } place ↔ place = [] := by
  constructor
  · rintro ⟨inside, hat⟩
    obtain ⟨rfl, -⟩ | ⟨name, bytes, -, heq, -⟩ := Node.at?_of_files hfiles hat
    · rfl
    · cases heq
  · rintro rfl
    exact ⟨entries, rfl⟩

theorem Node.at?_eq_file_of_files (hfiles : ∀ e ∈ entries, ∃ bytes, e.2 = .file bytes)
    {bytes : List UInt8} : Node.at? place (.directory entries) = some (.file bytes) ↔
      ∃ name, place = [name] ∧ entries.lookup name = some (.file bytes) := by
  constructor
  · intro hat
    obtain ⟨-, heq⟩ | ⟨name, _, hplace, heq, hheld⟩ := Node.at?_of_files hfiles hat
    · cases heq
    · exact ⟨name, hplace, hheld⟩
  · rintro ⟨name, rfl, hheld⟩
    exact Option.bind_eq_some_iff.mpr ⟨_, hheld, rfl⟩

end

/-- A directory with and without a file of bytes that are no text. -/
theorem load_aside_undecodable :
    ∃ fs fs' : FileSystem, Node.at? ["b.txt".toList] fs.root = some (.file [255]) ∧
      Node.at? ["b.txt".toList] fs'.root = none ∧ (load {} fs ['.']).outcome.isOk ∧
      ∀ tree, (load {} fs' ['.']).outcome = .ok tree ↔ (load {} fs ['.']).outcome = .ok tree := by
  let entries : List (Text × Node) := [("a.md".toList, .file [])]
  let fs : FileSystem := { root := .directory (("b.txt".toList, .file [255]) :: entries) }
  let fs' : FileSystem := { root := .directory entries }
  have hfiles : ∀ e ∈ entries, ∃ bytes, e.2 = .file bytes := by simp [entries]
  have hfiles' : ∀ e ∈ ("b.txt".toList, .file [255]) :: entries, ∃ bytes, e.2 = .file bytes := by
    simp [entries]
  have h : fs.SharesIndexed fs' {} ['.'] [] := by
    refine ⟨⟨rfl, rfl, rfl, fun place => ?_⟩, fun place bytes hplace => ?_⟩
    · rw [FileSystem.hasDirectory_of_files hfiles, FileSystem.hasDirectory_of_files hfiles']
    · rw [List.nil_append, Node.at?_eq_file_of_files hfiles, Node.at?_eq_file_of_files hfiles']
      refine exists_congr fun name => and_congr_right ?_
      rintro rfl
      have hother : name ≠ "b.txt".toList := by
        rintro rfl
        rw [Settings.indexes_singleton] at hplace
        exact absurd hplace (by decide)
      rw [Node.lookup_cons_of_ne hother]
  have hopens : fs.Opens ['.'] [] := ⟨rfl, _, rfl⟩
  have hok : (load {} fs ['.']).outcome.isOk := by decide +kernel
  have hok' : (load {} fs' ['.']).outcome.isOk := by decide +kernel
  obtain ⟨tree, htree⟩ := exists_ok_of_isOk hok
  obtain ⟨tree', htree'⟩ := exists_ok_of_isOk hok'
  obtain ⟨hsame, hfound⟩ := load_aside {} fs fs' ['.'] [] (by decide) hopens h
  obtain ⟨-, hfound'⟩ := load_aside {} fs' fs ['.'] [] (by decide) (h.directories.opens hopens) h.symm
  exact ⟨fs, fs', rfl, rfl, hok, (hsame (hfound tree htree) (hfound' tree' htree')).1⟩

def titlesWith (s : Settings) (dir name : Text) (contents : String) : Option (List Text) :=
  let file : Node := .file (Text.Utf8.encode contents.toList)
  let fs : FileSystem := { root := .directory [(name, file)] }
  (load s fs dir).outcome.toOption.map (·.documents.map Document.title)

/-- Under a path that is too long for one more name a directory is loaded without a file in it, but
not with it. A name with a slash for the document that represents a directory leads through a file,
and an ending with a slash is that of a path, not of a name. -/
theorem load_tells_aside :
    ((load {} { root := .directory [] } ('.' :: List.replicate 4080 '/')).outcome.isOk ∧
      titlesWith {} ('.' :: List.replicate 4080 '/') "long-file-name.txt".toList "" = none) ∧
    ((load { rootDocument := "docs/README.md".toList } { root := .directory [] } ['.']).outcome.isOk ∧
      titlesWith { rootDocument := "docs/README.md".toList } ['.'] "docs".toList "" = none) ∧
    (titlesWith { extension := "/a.md".toList } ['.'] "a.md".toList "x" = some ["a.md".toList] ∧
      titlesWith { extension := "/a.md".toList } ['.'] "a.md".toList "# y" = some ["y".toList]) := by
  decide +kernel

end DocTree
