import DocTree.Proofs.FileSystem.Reach
import DocTree.Proofs.Load.Order
import DocTree.Proofs.Load.View

/-!
# The files that loading reads

The documents of a loaded directory are read from the files below it that are to be indexed, from
each of them once, links followed or not. They stand in post-order: those of the entries in the
order of the listing, each with all that is below it, and then the directory's own document.
-/
namespace DocTree

/-- A file at a place below a directory is one to be indexed, by its path: no name above it is
hidden, and it represents its directory or is a Markdown file that is not hidden. -/
structure Settings.Indexes (s : Settings) (dir : Text) (place : List Text) : Prop where
  above : ∀ c ∈ place.dropLast, c.head? ≠ some '.'
  last : ∃ name ∈ place.getLast?,
    name = s.rootDocument ∨ name.head? ≠ some '.' ∧ s.isMarkdown (Path.below dir place)

namespace Settings

variable {s : Settings} {dir name : Text} {rest : List Text}

theorem indexes_singleton : s.Indexes dir [name] ↔
    name = s.rootDocument ∨ name.head? ≠ some '.' ∧ s.isMarkdown (Path.join dir name) := by
  constructor
  · rintro ⟨-, last, hlast, h⟩
    cases hlast
    exact h
  · intro h
    exact ⟨by simp, name, rfl, h⟩

theorem indexes_cons (hrest : rest ≠ []) : s.Indexes dir (name :: rest) ↔
    name.head? ≠ some '.' ∧ s.Indexes (Path.join dir name) rest := by
  obtain ⟨front, last, rfl⟩ := List.eq_nil_or_concat rest |>.resolve_left hrest
  rw [List.concat_eq_append]
  have hfront : (name :: (front ++ [last])).dropLast = name :: front := by
    rw [← List.cons_append, List.dropLast_concat]
  have hlast : (name :: (front ++ [last])).getLast? = some last := by
    rw [← List.cons_append, List.getLast?_concat]
  constructor
  · rintro ⟨habove, found, hfound, h⟩
    rw [hfront] at habove
    rw [hlast] at hfound
    exact ⟨habove name (by simp), by simpa using fun c hc => habove c (by simp [hc]), found,
      by simpa using hfound, h⟩
  · rintro ⟨hname, habove, found, hfound, h⟩
    refine ⟨?_, found, ?_, h⟩
    · rw [hfront]
      rw [List.dropLast_concat] at habove
      simpa using ⟨hname, habove⟩
    · rw [hlast]
      simpa using hfound

end Settings

namespace Listing

/-- A place comes before another below a directory: where they part, its name is listed sooner, and
a document that represents its directory comes after everything else there. -/
def Precedes (s : Settings) : List Text → List Text → Prop
  | a :: place, b :: other =>
    if a = b then Precedes s place other
    else b :: other = [s.rootDocument] ∨ a :: place ≠ [s.rootDocument] ∧ Sooner a b
  | _, _ => False

variable {s : Settings}

@[simp] theorem precedes_cons_self (name : Text) (place other : List Text) :
    Precedes s (name :: place) (name :: other) ↔ Precedes s place other := by
  rw [Precedes, if_pos rfl]

theorem precedes_of_sooner {a b : Text} (place other : List Text) (hne : a ≠ b)
    (hroot : a ≠ s.rootDocument) (h : Sooner a b) :
    Precedes s (a :: place) (b :: other) := by
  rw [Precedes, if_neg hne]
  exact Or.inr ⟨by simp [hroot], h⟩

theorem precedes_root {a : Text} (place : List Text) (h : a ≠ s.rootDocument) :
    Precedes s (a :: place) [s.rootDocument] := by
  rw [Precedes, if_neg h]
  exact Or.inl rfl

/-- No place comes before itself. -/
theorem not_precedes_self (place : List Text) : ¬ Precedes s place place := by
  induction place with
  | nil => exact id
  | cons a place ih => rwa [precedes_cons_self]

/-- The files of some documents below a directory, in order, and that they are those of a kind. -/
structure Covers (s : Settings) (dir : Text) (kind : List Text → Prop) (documents : List Document)
    (files : List (List Text)) : Prop where
  filenames : documents.map Document.filename = files.map (Path.below dir)
  ordered : files.Pairwise (Precedes s)
  complete : ∀ place, place ∈ files ↔ kind place

variable {dir : Text} {kind other : List Text → Prop} {documents more : List Document}
  {files : List (List Text)}

theorem covers_nil (h : ∀ place, ¬ kind place) : Covers s dir kind [] [] :=
  ⟨rfl, .nil, by simpa using h⟩

theorem covers_singleton {d : Document} {place : List Text} (hd : d.filename = Path.below dir place)
    (h : ∀ other, kind other ↔ other = place) : Covers s dir kind [d] [place] :=
  ⟨by simp [hd], by simp, by simpa using fun other => (h other).symm⟩

theorem Covers.congr (h : Covers s dir kind documents files)
    (hkind : ∀ place, kind place ↔ other place) : Covers s dir other documents files :=
  ⟨h.filenames, h.ordered, fun place => (h.complete place).trans (hkind place)⟩

/-- Documents below a name are documents below the directory. -/
theorem Covers.cons {name : Text} (h : Covers s (Path.join dir name) kind documents files) :
    Covers s dir (fun place => ∃ rest, place = name :: rest ∧ kind rest) documents
      (files.map (name :: ·)) := by
  refine ⟨?_, ?_, ?_⟩
  · rw [h.filenames, List.map_map]
    rfl
  · rw [List.pairwise_map]
    simpa using h.ordered
  · intro place
    simp only [List.mem_map, h.complete]
    exact ⟨fun ⟨rest, hrest, heq⟩ => ⟨rest, heq.symm, hrest⟩,
      fun ⟨rest, heq, hrest⟩ => ⟨rest, hrest, heq.symm⟩⟩

/-- Documents all of which come before some others. -/
theorem Covers.append {after : List (List Text)} (h : Covers s dir kind documents files)
    (hmore : Covers s dir other more after)
    (hbefore : ∀ p q, kind p → other q → Precedes s p q) :
    Covers s dir (fun place => kind place ∨ other place) (documents ++ more) (files ++ after) := by
  refine ⟨?_, ?_, ?_⟩
  · rw [List.map_append, List.map_append, h.filenames, hmore.filenames]
  · rw [List.pairwise_append]
    exact ⟨h.ordered, hmore.ordered, fun p hp q hq =>
      hbefore p q ((h.complete p).mp hp) ((hmore.complete q).mp hq)⟩
  · intro place
    rw [List.mem_append, h.complete, hmore.complete]

/-- The documents of the entries of a directory, name by name in the order of the listing. -/
theorem exists_covers_flatMap {names : List Text} {groups : List (List Document)}
    (hsorted : names.Pairwise fun a b => a ≠ b ∧ Sooner a b)
    (hroot : ∀ name ∈ names, name ≠ s.rootDocument)
    (h : List.Forall₂ (fun name group => ∃ files,
      Covers s (Path.join dir name) (fun rest => kind (name :: rest)) group files) names groups) :
    ∃ files, Covers s dir (fun place => kind place ∧ ∃ name ∈ names, place.head? = some name)
      groups.flatten files := by
  induction h with
  | nil => exact ⟨[], covers_nil (by simp)⟩
  | @cons name group names groups hgroup hrest ih =>
    obtain ⟨hname, hsorted⟩ := List.pairwise_cons.mp hsorted
    obtain ⟨files, hfiles⟩ := hgroup
    obtain ⟨after, hafter⟩ := ih hsorted fun other hother => hroot other (by simp [hother])
    refine ⟨files.map (name :: ·) ++ after, (hfiles.cons.append hafter ?_).congr ?_⟩
    · rintro p q ⟨rest, rfl, -⟩ ⟨-, next, hnext, hq⟩
      obtain ⟨other, rfl⟩ := List.head?_eq_some_iff.mp hq
      obtain ⟨hne, hsooner⟩ := hname next hnext
      exact precedes_of_sooner rest other hne (hroot name (by simp)) hsooner
    · intro place
      constructor
      · rintro (⟨rest, rfl, hkind⟩ | ⟨hkind, next, hnext, hhead⟩)
        · exact ⟨hkind, name, by simp, rfl⟩
        · exact ⟨hkind, next, by simp [hnext], hhead⟩
      · rintro ⟨hkind, next, hnext, hhead⟩
        rcases List.mem_cons.mp hnext with rfl | hnext
        · obtain ⟨rest, rfl⟩ := List.head?_eq_some_iff.mp hhead
          exact Or.inl ⟨rest, rfl, hkind⟩
        · exact Or.inr ⟨hkind, next, hnext, hhead⟩

end Listing

/-- A document that was read from where a path leads was read from a file. -/
theorem Document.IsRead.isFile {s : Settings} {fs : FileSystem} {d : Document} {path : Text} {n : Node}
    (h : d.IsRead s fs) (hfilename : d.filename = path) (hn : fs.find path = .ok n) :
    fs.IsFile path := by
  obtain ⟨text, htext, -⟩ := h
  rw [hfilename] at htext
  exact FileSystem.isFile_of_readText hn htext

def FileSystem.Indexed (s : Settings) (fs : FileSystem) (dir : Text) (place : List Text) : Prop :=
  fs.HasFile dir place ∧ s.Indexes dir place

namespace Load

open Listing

variable {s : Settings} {fs : FileSystem} {dir name : Text}

def listed (s : Settings) (e : Entry) : List Document :=
  if isListed s e then e.documents else []

theorem documentsOf_filter (loaded : List Entry) :
    Entry.documentsOf (loaded.filter (isListed s)) = (loaded.map (listed s)).flatten := by
  rw [Entry.documentsOf_eq_flatMap]
  induction loaded with
  | nil => rfl
  | cons e rest ih =>
    by_cases h : isListed s e <;> simp [h, listed, ih]

/-- A directory that is not listed has no documents. -/
theorem listed_directory (filename title : Text) (entries : List Entry) (root : Option Document) :
    listed s (.directory filename title entries root) =
      (Entry.directory filename title entries root).documents := by
  rw [listed, ite_eq_left_iff]
  intro h
  symm
  rw [List.eq_nil_iff_forall_not_mem]
  exact fun d hd => h (Entry.isListed_of_mem_documents hd)

/-- A file has no file below it. -/
theorem hasFile_below_file {rest : List Text} (hdir : dir ≠ []) {n : Node} (hn : fs.find dir = .ok n)
    (hfile : ¬ n.isDirectory) : ¬ fs.HasFile dir rest := by
  intro h
  obtain ⟨entries, hentries⟩ := h.exists_directory hdir
  rw [hn] at hentries
  cases hentries
  exact hfile rfl

/-- An entry that is no directory is read if it is a Markdown file. -/
theorem exists_covers_file (hdir : dir ≠ []) (hname : Path.IsName name)
    (hroot : name ≠ s.rootDocument) (hhidden : name.head? ≠ some '.') {n : Node}
    (hn : fs.find (Path.join dir name) = .ok n) (hfile : ¬ n.isDirectory) {e : Entry}
    (he : (file s fs (Path.join dir name)).outcome = .ok e) :
    ∃ files, Covers s (Path.join dir name) (fun rest => fs.Indexed s dir (name :: rest))
      (listed s e) files := by
  -- Whatever is indexed through the name is the file itself.
  have hself : ∀ rest, fs.Indexed s dir (name :: rest) →
      rest = [] ∧ s.isMarkdown (Path.join dir name) := by
    rintro rest ⟨hhas, hindexes⟩
    by_cases hrest : rest = []
    · subst hrest
      rcases Settings.indexes_singleton.mp hindexes with h | ⟨-, h⟩
      · exact absurd h hroot
      · exact ⟨rfl, h⟩
    · obtain ⟨-, hhas⟩ := (FileSystem.hasFile_cons hrest).mp hhas
      exact absurd hhas (hasFile_below_file (Path.join_ne_nil hdir name) hn hfile)
  obtain ⟨d, rfl, hfilename, ⟨hmarkdown, hread⟩ | ⟨hmarkdown, rfl⟩⟩ := file_eq_ok he
  · have hlisted : listed s (.document d) = [d] := by
      rw [listed, isListed, hfilename, if_pos hmarkdown]
      rfl
    rw [hlisted]
    refine ⟨[[]], covers_singleton hfilename fun rest => ⟨fun h => (hself rest h).1, ?_⟩⟩
    rintro rfl
    exact ⟨FileSystem.hasFile_singleton.mpr ⟨hname, hread.isFile hfilename hn⟩,
      Settings.indexes_singleton.mpr (Or.inr ⟨hhidden, hmarkdown⟩)⟩
  · have hlisted : listed s (.document (other (Path.join dir name))) = [] := by
      rw [listed, isListed, other, if_neg hmarkdown]
    rw [hlisted]
    exact ⟨[], covers_nil fun rest h => hmarkdown (hself rest h).2⟩

/-- An entry is read with all that is below it, given that directories are. -/
theorem exists_covers_entry (hdir : dir ≠ []) (hname : Path.IsName name)
    (hroot : name ≠ s.rootDocument) (hhidden : name.head? ≠ some '.')
    {directory : Text → Traced Entry} {e : Entry}
    (hdirectory : (directory (Path.join dir name)).outcome = .ok e →
      ∃ files, Covers s (Path.join dir name) (fs.Indexed s (Path.join dir name)) (listed s e) files)
    (he : (entry s fs directory (Path.join dir name)).outcome = .ok e) :
    ∃ files, Covers s (Path.join dir name) (fun rest => fs.Indexed s dir (name :: rest))
      (listed s e) files := by
  obtain ⟨n, hn, ⟨hisdir, he⟩ | ⟨hisdir, he⟩⟩ := entry_eq_ok he
  · obtain ⟨files, hfiles⟩ := hdirectory he
    refine ⟨files, hfiles.congr fun rest => ?_⟩
    by_cases hrest : rest = []
    · subst hrest
      constructor
      · rintro ⟨hhas, -⟩
        exact absurd rfl hhas.ne_nil
      · rintro ⟨hhas, -⟩
        obtain ⟨-, bytes, hbytes⟩ := FileSystem.hasFile_singleton.mp hhas
        rw [hn] at hbytes
        cases hbytes
        cases hisdir
    · rw [FileSystem.Indexed, FileSystem.Indexed, FileSystem.hasFile_cons hrest,
        Settings.indexes_cons hrest]
      simp [hname, hhidden]
  · exact exists_covers_file hdir hname hroot hhidden hn hisdir he

/-- The document that represents a directory is read from a file in it. -/
theorem hasFile_of_rootDocument (hdir : dir ≠ []) (hslash : '/' ∉ s.rootDocument) {d : Document}
    (hroot : (rootDocument s fs dir).outcome = .ok (some d)) :
    d.filename = Path.join dir s.rootDocument ∧ fs.HasFile dir [s.rootDocument] := by
  obtain ⟨hfound, hd⟩ := document_of_rootDocument hroot
  obtain ⟨hfilename, hread⟩ := document_eq_ok hd
  obtain ⟨n, hn⟩ := FileSystem.exists_find_of_exists? hfound
  have hfile := hread.isFile hfilename hn
  exact ⟨hfilename, FileSystem.hasFile_singleton.mpr ⟨hfile.isName hdir hslash, hfile⟩⟩

/-- Where a file stands through the name of the document that represents a directory, it is that
document. -/
theorem rootDocument_of_hasFile (hdir : dir ≠ []) (hslash : '/' ∉ s.rootDocument)
    {root : Option Document} (hroot : (rootDocument s fs dir).outcome = .ok root)
    {rest : List Text} (h : fs.HasFile dir (s.rootDocument :: rest)) : rest = [] ∧ root ≠ none := by
  obtain ⟨n, hn, hisdir⟩ := h.exists_find hdir
  cases root with
  | none => exact absurd hn (FileSystem.find_ne_ok_of_exists? (exists?_of_rootDocument hroot) n)
  | some d =>
    obtain ⟨-, hown⟩ := hasFile_of_rootDocument hdir hslash hroot
    obtain ⟨-, bytes, hbytes⟩ := FileSystem.hasFile_singleton.mp hown
    rw [hn] at hbytes
    cases hbytes
    refine ⟨?_, by simp⟩
    by_contra hrest
    cases hisdir.mpr hrest

theorem exists_covers_root (hdir : dir ≠ []) (hslash : '/' ∉ s.rootDocument)
    {root : Option Document} (hroot : (rootDocument s fs dir).outcome = .ok root) :
    ∃ files, Covers s dir (fun place => fs.Indexed s dir place ∧ place = [s.rootDocument])
      root.toList files := by
  cases root with
  | none =>
    refine ⟨[], covers_nil ?_⟩
    rintro place ⟨⟨hhas, -⟩, rfl⟩
    exact (rootDocument_of_hasFile hdir hslash hroot hhas).2 rfl
  | some d =>
    obtain ⟨hfilename, hhas⟩ := hasFile_of_rootDocument hdir hslash hroot
    refine ⟨[[s.rootDocument]], covers_singleton hfilename fun place => ⟨fun h => h.2, ?_⟩⟩
    rintro rfl
    exact ⟨⟨hhas, Settings.indexes_singleton.mpr (Or.inl rfl)⟩, rfl⟩

/-- A file that is to be indexed is the directory's own document, or stands through a name that is
looked at. -/
theorem indexed_iff (hdir : dir ≠ []) (hslash : '/' ∉ s.rootDocument) {names : List Text}
    (hnames : fs.names dir = .ok names) {root : Option Document}
    (hroot : (rootDocument s fs dir).outcome = .ok root) (place : List Text) :
    fs.Indexed s dir place ↔
      (fs.Indexed s dir place ∧ ∃ name ∈ sort (visible s names), place.head? = some name) ∨
        fs.Indexed s dir place ∧ place = [s.rootDocument] := by
  constructor
  · intro h
    obtain ⟨hhas, hindexes⟩ := h
    obtain ⟨name, rest, rfl⟩ := List.exists_cons_of_ne_nil hhas.ne_nil
    by_cases hname : name = s.rootDocument
    · subst hname
      obtain ⟨rfl, -⟩ := rootDocument_of_hasFile hdir hslash hroot hhas
      exact Or.inr ⟨⟨hhas, hindexes⟩, rfl⟩
    · have hhidden : name.head? ≠ some '.' := by
        by_cases hrest : rest = []
        · subst hrest
          rcases Settings.indexes_singleton.mp hindexes with h | ⟨h, -⟩
          · exact absurd h hname
          · exact h
        · exact ((Settings.indexes_cons hrest).mp hindexes).1
      exact Or.inl ⟨⟨hhas, hindexes⟩, name,
        mem_sort_visible.mpr ⟨hhas.mem_names hdir hnames, hname, hhidden⟩, rfl⟩
  · rintro (⟨h, -⟩ | ⟨h, -⟩) <;> exact h

/-- A directory is read with all that is below it. -/
theorem exists_covers_directoryWithin (hnamed : fs.root.isNamed) (hslash : '/' ∉ s.rootDocument)
    {room : Nat} {e : Entry} (hdir : dir ≠ [])
    (he : (directoryWithin s fs room dir).outcome = .ok e) :
    ∃ files, Covers s dir (fs.Indexed s dir) e.documents files := by
  induction room generalizing dir e with
  | zero => cases he
  | succ room ih =>
    obtain ⟨names, root, loaded, hnames, hroot, hloaded, rfl⟩ := directoryWithin_eq_ok.mp he
    obtain ⟨hnodup, hisname⟩ := FileSystem.names_isName hnamed hnames
    have hsorted : (sort (visible s names)).Pairwise fun a b => a ≠ b ∧ Sooner a b :=
      (nodup_sort_visible hnodup).and (pairwise_sort _)
    have hgroups : List.Forall₂ (fun name group => ∃ files,
        Covers s (Path.join dir name) (fun rest => fs.Indexed s dir (name :: rest)) group files)
        (sort (visible s names)) (loaded.map (listed s)) := by
      rw [List.forall₂_map_right_iff]
      refine ((List.forall₂_and_left _ _).mpr ⟨fun _ h => h, forall₂_of_mapM hloaded⟩).imp ?_
      rintro name e ⟨hname, hentry⟩
      obtain ⟨hmem, hroot, hhidden⟩ := mem_sort_visible.mp hname
      refine exists_covers_entry hdir (hisname name hmem) hroot hhidden (fun hdirectory => ?_) hentry
      obtain ⟨title, entries, root, rfl⟩ := exists_of_directoryWithin hdirectory
      rw [listed_directory]
      exact ih (Path.join_ne_nil hdir name) hdirectory
    obtain ⟨files, hfiles⟩ := exists_covers_flatMap hsorted
      (fun name hname => (mem_sort_visible.mp hname).2.1) hgroups
    obtain ⟨own, hown⟩ := exists_covers_root hdir hslash hroot
    rw [Entry.documents, documentsOf_filter]
    refine ⟨files ++ own, (hfiles.append hown ?_).congr fun place =>
      (indexed_iff hdir hslash hnames hroot place).symm⟩
    rintro p q ⟨-, name, hname, hp⟩ ⟨-, rfl⟩
    obtain ⟨rest, rfl⟩ := List.head?_eq_some_iff.mp hp
    exact precedes_root rest (mem_sort_visible.mp hname).2.1

end Load

/-- Loading a directory reads the files below it that are to be indexed, in post-order. -/
theorem exists_covers_load {s : Settings} {fs : FileSystem} {dir : Text}
    (hnamed : fs.root.isNamed) (hslash : '/' ∉ s.rootDocument) {n : Node}
    (hdir : fs.find dir = .ok n) (hisdir : n.isDirectory) {tree : Entry}
    (h : (load s fs dir).outcome = .ok tree) :
    ∃ files, Listing.Covers s dir (fs.Indexed s dir) tree.documents files := by
  have hne := FileSystem.ne_nil_of_find hdir
  rw [outcome_load] at h
  obtain ⟨m, hm, h⟩ := bind_eq_ok.mp h
  rw [hdir] at hm
  cases hm
  rw [if_pos hisdir] at h
  exact Load.exists_covers_directoryWithin hnamed hslash hne h

end DocTree
