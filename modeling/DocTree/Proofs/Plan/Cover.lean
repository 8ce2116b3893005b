import DocTree.Proofs.Load.Cover
import DocTree.Proofs.Plan.Named

/-!
# A plan covers what is to be indexed

The plan of a directory has one entry for every file below it that is to be indexed, links followed
or not, and none for any other file. No file name occurs twice, and the order is post-order.
-/
namespace DocTree

namespace Listing.Covers

variable {s : Settings} {fs : FileSystem} {dir : Text} {documents : List Document}
  {files : List (List Text)}

/-- Documents that come one before the other are read from different paths. -/
theorem nodup_filenames (h : Covers s dir (fs.Indexed s dir) documents files) :
    (documents.map Document.filename).Nodup := by
  rw [h.filenames, List.Nodup, List.pairwise_map]
  apply h.ordered.imp_of_mem
  intro p q hp hq hprecedes heq
  have hp := ((h.complete p).mp hp).1
  have hq := ((h.complete q).mp hq).1
  have hsame : p = q := Path.below_injective hp.ne_nil hq.ne_nil hp.names hq.names heq
  exact not_precedes_self q (hsame ▸ hprecedes)

/-- The path of a file is among those of the documents exactly if the file is to be indexed. -/
theorem mem_filenames_iff (h : Covers s dir (fs.Indexed s dir) documents files)
    {place : List Text} (hhas : fs.HasFile dir place) :
    Path.below dir place ∈ documents.map Document.filename ↔ s.Indexes dir place := by
  rw [h.filenames, List.mem_map]
  constructor
  · rintro ⟨other, hother, heq⟩
    obtain ⟨hhas', hindexes⟩ := (h.complete other).mp hother
    have hsame : other = place :=
      Path.below_injective hhas'.ne_nil hhas.ne_nil hhas'.names hhas.names heq
    exact hsame ▸ hindexes
  · intro hindexes
    exact ⟨place, (h.complete place).mpr ⟨hhas, hindexes⟩, rfl⟩

end Listing.Covers

/-- With an ending that holds no slash, a file is to be indexed by its name. -/
theorem Settings.indexes_concat {s : Settings} {dir name : Text} {place : List Text}
    (hslash : '/' ∉ s.extension) (hdir : dir ≠ []) (hname : Path.IsName name) :
    s.Indexes dir (place ++ [name]) ↔
      (∀ c ∈ place, c.head? ≠ some '.') ∧
        (name = s.rootDocument ∨ name.head? ≠ some '.' ∧ s.isMarkdown name) := by
  have hmarkdown : s.isMarkdown (Path.below dir (place ++ [name])) = s.isMarkdown name := by
    rw [Path.below_concat]
    exact isMarkdown_join hslash (Path.below_ne_nil hdir place) hname.notMem_slash
  constructor
  · rintro ⟨habove, last, hlast, h⟩
    rw [List.dropLast_concat] at habove
    rw [List.getLast?_concat] at hlast
    cases hlast
    rw [hmarkdown] at h
    exact ⟨habove, h⟩
  · rintro ⟨habove, h⟩
    rw [← hmarkdown] at h
    exact ⟨by simpa using habove, name, by simp, h⟩

/-- The plan of a directory that loads names no path twice. Its paths are those of files below the
directory, in post-order, and a file below the directory is among them exactly if it is to be
indexed: if nothing above it is hidden, and it represents its directory or is a Markdown file that
is not hidden. With an ending that holds no slash the name of a file tells what it is. -/
theorem plan_covers {s : Settings} {fs : FileSystem} {dir : Text} (hnamed : fs.root.isNamed)
    (hslash : '/' ∉ s.rootDocument) {n : Node} (hdir : fs.find dir = .ok n)
    (hisdir : n.isDirectory) {tree : Entry} (hload : (load s fs dir).outcome = .ok tree) :
    ∃ (edits : List FileEdit) (files : List (List Text)), plan s fs dir = .ok edits ∧
      edits.map FileEdit.filename = files.map (Path.below dir) ∧
      (edits.map FileEdit.filename).Nodup ∧
      files.Pairwise (Listing.Precedes s) ∧
      (∀ place ∈ files, fs.HasFile dir place) ∧
      (∀ place, fs.HasFile dir place →
        (Path.below dir place ∈ edits.map FileEdit.filename ↔ s.Indexes dir place)) ∧
      ('/' ∉ s.extension → ∀ place name, fs.HasFile dir (place ++ [name]) →
        (Path.below dir (place ++ [name]) ∈ edits.map FileEdit.filename ↔
          (∀ c ∈ place, c.head? ≠ some '.') ∧
            (name = s.rootDocument ∨ name.head? ≠ some '.' ∧ s.isMarkdown name))) := by
  obtain ⟨edits, hedits, hplan⟩ := exists_plan hload
  obtain ⟨files, hcovers⟩ := exists_covers_load hnamed hslash hdir hisdir hload
  have hne := FileSystem.ne_nil_of_find hdir
  have hmem : ∀ place, fs.HasFile dir place →
      (Path.below dir place ∈ edits.map FileEdit.filename ↔ s.Indexes dir place) := by
    intro place hhas
    rw [Plan.filename_ofEntry hedits]
    exact hcovers.mem_filenames_iff hhas
  refine ⟨edits, files, hplan, ?_, ?_, hcovers.ordered, ?_, hmem, ?_⟩
  · rw [Plan.filename_ofEntry hedits, hcovers.filenames]
  · rw [Plan.filename_ofEntry hedits]
    exact hcovers.nodup_filenames
  · exact fun place hplace => ((hcovers.complete place).mp hplace).1
  · intro hextension place name hhas
    rw [hmem _ hhas]
    exact Settings.indexes_concat hextension hne (hhas.names name (by simp))

/-- A directory with a document of its own, one below it that is also reached through a link, one
with nothing to show and a hidden one. -/
theorem plan_covers_linked :
    let fs : FileSystem := ⟨.directory [
      ("README.md".toList, .file []),
      ("link".toList, .link "sub".toList),
      (".git".toList, .directory [("c.md".toList, .file [])]),
      ("a.txt".toList, .file []),
      ("B.md".toList, .file []),
      ("sub".toList, .directory [
        ("empty".toList, .directory []),
        ("deep".toList, .directory [("c.md".toList, .file [])])])], []⟩
    ∃ edits, plan {} fs ".".toList = .ok edits ∧
      edits.map FileEdit.filename =
        ["./B.md".toList, "./link/deep/c.md".toList, "./sub/deep/c.md".toList,
          "./README.md".toList] ∧
      (edits.map FileEdit.filename).Nodup ∧
      Path.below ".".toList [".git".toList, "c.md".toList] ∉ edits.map FileEdit.filename := by
  intro fs
  have hload : (load {} fs ".".toList).outcome.isOk := by decide +kernel
  obtain ⟨tree, htree⟩ := exists_ok_of_isOk hload
  obtain ⟨edits, files, hplan, -, hnodup, -, -, hmem, -⟩ :=
    plan_covers (n := fs.root) (by decide +kernel) (by decide) rfl rfl htree
  have hnames : (plan {} fs ".".toList).toOption.map (List.map FileEdit.filename) =
      some ["./B.md".toList, "./link/deep/c.md".toList, "./sub/deep/c.md".toList,
        "./README.md".toList] := by decide +kernel
  rw [hplan] at hnames
  refine ⟨edits, hplan, Option.some.inj hnames, hnodup, ?_⟩
  have hhidden : fs.HasFile ".".toList [".git".toList, "c.md".toList] :=
    ⟨by simp, by decide, [], rfl⟩
  rw [hmem _ hhidden]
  intro h
  exact h.above ".git".toList (by simp) rfl

/-- An ending with a slash is looked for in the whole path: a file is planned whose name is neither
that of a document that represents its directory nor has the ending. -/
theorem plan_beyond_names :
    let s : Settings := { extension := "/a.md".toList }
    let fs : FileSystem := ⟨.directory [("a.md".toList, .file [])], []⟩
    fs.HasFile ".".toList ["a.md".toList] ∧
      "a.md".toList ≠ s.rootDocument ∧ ¬ s.isMarkdown "a.md".toList ∧
      (plan s fs ".".toList).toOption.map (List.map FileEdit.filename) = some ["./a.md".toList] := by
  exact ⟨⟨by simp, by decide, [], rfl⟩, by decide, by decide, by decide +kernel⟩

end DocTree
