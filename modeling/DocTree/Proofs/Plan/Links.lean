import DocTree.Proofs.Load.Cover
import DocTree.Proofs.Path.Absolute
import DocTree.Proofs.Plan.Chain

/-!
# Where links lead

What a document of a loaded tree links to stands beside it, or beside its directory where it
represents that. The path of a link is the way from the document's directory if the document is
named like a Markdown file, and then it leads to its target. Otherwise it is the way from the
document itself, which is one step longer, and leads to the target at the root of the file system
only.
-/
namespace DocTree

def Seat.targets (x : Seat) : List Entry :=
  x.nav.targets ++ x.entries?.getD []

/-- What is around an entry stands beside it, if all entries stand beside each other and beside the
directory's own document. -/
theorem Nav.beside_around {entries : List Entry} {root : Option Document}
    (hentries : entries.Pairwise fun a b => Path.Beside a.filename b.filename)
    (hroot : ∀ d ∈ root, ∀ e ∈ entries, Path.Beside e.filename d.filename) {i : Nat} {e : Entry}
    (he : entries[i]? = some e) :
    ∀ o ∈ (around entries root i).targets, Path.Beside e.filename o.filename := by
  obtain ⟨hi, rfl⟩ := List.getElem?_eq_some_iff.mp he
  rw [List.pairwise_iff_getElem] at hentries
  intro o ho
  rcases mem_targets.mp ho with hprevious | hup | hnext
  · cases i with
    | zero => cases hprevious
    | succ i =>
      obtain ⟨hj, rfl⟩ := List.getElem?_eq_some_iff.mp hprevious
      exact (hentries i (i + 1) hj hi (Nat.lt_succ_self i)).symm
  · obtain ⟨d, hd, rfl⟩ := Option.map_eq_some_iff.mp hup
    exact hroot d hd _ (List.getElem_mem hi)
  · obtain ⟨hj, rfl⟩ := List.getElem?_eq_some_iff.mp hnext
    exact hentries i (i + 1) hi hj (Nat.lt_succ_self i)

namespace Load

variable {s : Settings} {fs : FileSystem} {path : Text}

/-- An entry has the path that it was read from. -/
theorem filename_of_entry {room : Nat} {e : Entry}
    (h : (entry s fs (directoryWithin s fs room) path).outcome = .ok e) : e.filename = path := by
  obtain ⟨n, -, ⟨-, h⟩ | ⟨-, h⟩⟩ := entry_eq_ok h
  · obtain ⟨title, entries, root, rfl⟩ := exists_of_directoryWithin h
    rfl
  · obtain ⟨d, rfl, hd, -⟩ := file_eq_ok h
    exact hd

/-- What stands under names of a directory stands beside each other. -/
theorem beside_of_mapM {room : Nat} (hpath : path ≠ []) {names : List Text} (hnodup : names.Nodup)
    (hnames : ∀ name ∈ names, Path.IsName name) {loaded : List Entry}
    (h : (names.mapM fun name =>
      (entry s fs (directoryWithin s fs room) (Path.join path name)).outcome) = .ok loaded) :
    loaded.Pairwise fun a b => Path.Beside a.filename b.filename := by
  apply pairwise_of_mapM h hnodup
  intro x hx y hy hne a b ha hb
  exact ⟨path, x, y, hpath, hnames x hx, hnames y hy, hne, filename_of_entry ha,
    filename_of_entry hb⟩

/-- The entries that a directory lists stand beside each other and beside its own document. -/
theorem listed_beside (hnamed : fs.root.isNamed) (hslash : '/' ∉ s.rootDocument) (hpath : path ≠ [])
    {names : List Text} (hnames : fs.names path = .ok names) {root : Option Document}
    (hroot : (rootDocument s fs path).outcome = .ok root) {room : Nat} {loaded : List Entry}
    (hloaded : ((Listing.sort (Listing.visible s names)).mapM fun name =>
      (entry s fs (directoryWithin s fs room) (Path.join path name)).outcome) = .ok loaded) :
    (loaded.filter (Listing.isListed s)).Pairwise
        (fun a b => Path.Beside a.filename b.filename) ∧
      ∀ d ∈ root, ∀ e ∈ loaded.filter (Listing.isListed s),
        Path.Beside e.filename d.filename := by
  obtain ⟨hnodup, hisname⟩ := FileSystem.names_isName hnamed hnames
  constructor
  · exact (beside_of_mapM hpath (Listing.nodup_sort_visible hnodup)
      (fun name hname => hisname name (Listing.mem_sort_visible.mp hname).1) hloaded).sublist
        List.filter_sublist
  · rintro d hd o ho
    cases hd
    obtain ⟨hfilename, hhas⟩ := hasFile_of_rootDocument hpath hslash hroot
    obtain ⟨name, hname, hentry⟩ := exists_of_mem_mapM hloaded o (List.mem_filter.mp ho).1
    obtain ⟨hmem, hne, -⟩ := Listing.mem_sort_visible.mp hname
    exact ⟨path, name, s.rootDocument, hpath, hisname name hmem, hhas.names _ (by simp), hne,
      filename_of_entry hentry, hfilename⟩

/-- What the documents of a loaded directory link to stands near them, given that what the
directory leads to stands beside it. -/
theorem directoryWithin_near (hnamed : fs.root.isNamed) (hslash : '/' ∉ s.rootDocument) {room : Nat}
    (hpath : path ≠ []) {e : Entry} (he : (directoryWithin s fs room path).outcome = .ok e)
    {n : Nav} (hn : ∀ o ∈ n.targets, Path.Beside path o.filename) :
    ∀ x ∈ e.seats n, ∀ o ∈ x.targets, Path.Near x.document.filename o.filename := by
  induction room generalizing path e n with
  | zero => cases he
  | succ room ih =>
    obtain ⟨names, root, loaded, hnames, hroot, hloaded, rfl⟩ := directoryWithin_eq_ok.mp he
    obtain ⟨hlisted, hbesideRoot⟩ := listed_beside hnamed hslash hpath hnames hroot hloaded
    intro x hx
    rw [Entry.seats] at hx
    rcases List.mem_append.mp hx with hx | hx
    · obtain ⟨i, e, he, hx⟩ := Entry.mem_seatsOf hx
      have hmem := List.mem_of_getElem? he
      obtain ⟨name, -, hentry⟩ := exists_of_mem_mapM hloaded e (List.mem_filter.mp hmem).1
      have haround := Nav.beside_around hlisted hbesideRoot he
      rw [← Nav.around] at hx
      rw [filename_of_entry hentry] at haround
      obtain ⟨m, -, ⟨-, hentry⟩ | ⟨-, hentry⟩⟩ := entry_eq_ok hentry
      · exact ih (Path.join_ne_nil hpath name) hentry haround x hx
      · obtain ⟨d, rfl, hd, -⟩ := file_eq_ok hentry
        cases List.mem_singleton.mp hx
        intro o ho
        rw [hd]
        exact Or.inl (haround o (by simpa [Seat.targets] using ho))
    · obtain ⟨d, hd, rfl⟩ := List.mem_map.mp hx
      cases Option.mem_toList.mp hd
      obtain ⟨hfilename, hhas⟩ := hasFile_of_rootDocument hpath hslash hroot
      intro o ho
      rcases List.mem_append.mp ho with ho | ho
      · exact Or.inr ⟨path, s.rootDocument, hhas.names _ (by simp), hn o ho, hfilename⟩
      · exact Or.inl (hbesideRoot d rfl o ho).symm

end Load

/-- What the documents of a loaded tree link to stands near them. -/
theorem load_near {s : Settings} {fs : FileSystem} {path : Text} (hnamed : fs.root.isNamed)
    (hslash : '/' ∉ s.rootDocument) {tree : Entry} (h : (load s fs path).outcome = .ok tree) :
    ∀ x ∈ tree.seats {}, ∀ o ∈ x.targets, Path.Near x.document.filename o.filename := by
  rw [outcome_load] at h
  obtain ⟨n, hn, h⟩ := bind_eq_ok.mp h
  split at h
  · apply Load.directoryWithin_near hnamed hslash (FileSystem.ne_nil_of_find hn) h
    simp [Nav.targets]
  · obtain ⟨d, -, h⟩ := bind_eq_ok.mp h
    cases h
    intro x hx
    cases List.mem_singleton.mp hx
    simp [Seat.targets, Nav.targets]

/-- Every document of a loaded tree is named below the path that the tree was loaded from. -/
theorem load_isAbsolute {s : Settings} {fs : FileSystem} {path : Text} (hnamed : fs.root.isNamed)
    (hslash : '/' ∉ s.rootDocument) {tree : Entry} (h : (load s fs path).outcome = .ok tree) :
    ∀ d ∈ tree.documents, Path.isAbsolute d.filename = Path.isAbsolute path := by
  have hload := h
  rw [outcome_load] at hload
  obtain ⟨n, hn, hload⟩ := bind_eq_ok.mp hload
  split at hload
  · rename_i hisdir
    obtain ⟨files, hcovers⟩ := exists_covers_load hnamed hslash hn hisdir h
    intro d hd
    have hmem := List.mem_map_of_mem (f := Document.filename) hd
    rw [hcovers.filenames] at hmem
    obtain ⟨place, hplace, heq⟩ := List.mem_map.mp hmem
    rw [← heq]
    exact Path.isAbsolute_below (FileSystem.ne_nil_of_find hn)
      ((hcovers.complete place).mp hplace).1.names
  · obtain ⟨d, hd, hload⟩ := bind_eq_ok.mp hload
    cases hload
    simp [Entry.documents, (Load.document_eq_ok hd).1]

/-- There is a link to what stands near a document. It leads there exactly if the document is named
like a Markdown file, or has nothing in common with its target below the root. -/
theorem Render.exists_target {s : Settings} {filename : Text} {o : Entry}
    (hnear : Path.Near filename o.filename)
    (hcwd : Path.isAbsolute o.filename ∨ ∀ c ∈ s.workingDirectory, Path.IsName c) :
    ∃ link, target s filename o = .ok link ∧
      (Path.Leads s.workingDirectory filename link o.filename ↔
        s.isMarkdown filename ∨
          Path.common (Path.place s.workingDirectory filename)
            (Path.place s.workingDirectory o.filename) = 0) := by
  obtain ⟨above, rest, x, y, hparting⟩ := hnear.exists_parting s.workingDirectory
  obtain ⟨hdir, hfile⟩ := hparting.relative_ne_here
  have hne : ¬ o.filename.isEmpty := by simp [hnear.ne_nil]
  by_cases hmarkdown : s.isMarkdown filename
  · refine ⟨Path.relative s.workingDirectory o.filename (Path.dirName filename), ?_, ?_⟩
    · rw [target, if_pos hmarkdown, if_neg hne]
      exact congrArg Except.ok (if_neg hdir)
    · exact iff_of_true (hparting.leads_dirName hcwd) (Or.inl hmarkdown)
  · refine ⟨Path.relative s.workingDirectory o.filename filename, ?_, ?_⟩
    · rw [target, if_neg hmarkdown, if_neg hne]
      exact congrArg Except.ok (if_neg hfile)
    · rw [or_iff_right hmarkdown]
      exact hparting.leads_file_iff hcwd

/-- The links in the blocks of a document: those to its neighbours in the navigation, and those to
the entries it lists in the table of contents. -/
structure Plan.Linked (s : Settings) (x : Seat) (f : FileEdit) : Prop where
  row : ∃ previous up next, Row s f x.document x.nav previous up next
  listing : ∀ entries ∈ x.entries?, ∃ links,
    f.edits[0]? =
      some (x.document.editFor Marker.toc (Render.listing links) [.secondLevel, .bottom]) ∧
    List.Forall₂ (fun o link => Render.entryLink s f.filename o = .ok link) entries links

theorem Plan.linked_of_edit {s : Settings} {x : Seat} {f : FileEdit} (h : x.edit s = .ok f) :
    Linked s x f := by
  refine ⟨exists_row h, ?_⟩
  obtain ⟨d, n, entries?⟩ := x
  rintro entries hentries
  cases hentries
  obtain ⟨links, hlinks, hfilename, htoc⟩ := exists_listing h
  rw [hfilename]
  exact ⟨links, htoc, forall₂_of_mapM hlinks⟩

/-- Every link that the plan of a loaded tree writes into a document leads to its target, exactly if
the document is named like a Markdown file, or has nothing in common with the target below the root
of the file system. -/
theorem plan_leads_iff {s : Settings} {fs : FileSystem} {path : Text} (hnamed : fs.root.isNamed)
    (hslash : '/' ∉ s.rootDocument) {tree : Entry} (hload : (load s fs path).outcome = .ok tree) :
    let cwd := fs.workingDirectory
    let there : Settings := { s with workingDirectory := cwd }
    ∃ edits, plan s fs path = .ok edits ∧
      List.Forall₂ (fun x f => Plan.Linked there x f ∧
        ∀ o ∈ x.targets, ∃ link, Render.entryLink there f.filename o =
            .ok (Render.link o.title link) ∧
          (Path.Leads cwd f.filename link o.filename ↔ s.isMarkdown f.filename ∨
            Path.common (Path.place cwd f.filename) (Path.place cwd o.filename) = 0))
        (tree.seats {}) edits := by
  intro cwd there
  obtain ⟨edits, hedits, hplan⟩ := exists_plan hload
  refine ⟨edits, hplan, ?_⟩
  have hnear := load_near hnamed hslash hload
  have habsolute := load_isAbsolute hnamed hslash hload
  have hstart : Path.isAbsolute path ∨ ∀ c ∈ cwd, Path.IsName c := by
    obtain ⟨n, hn, -⟩ := bind_eq_ok.mp ((outcome_load s fs path).symm.trans hload)
    have hnames := FileSystem.isName_startOf hnamed hn
    rw [FileSystem.startOf] at hnames
    split at hnames
    · rename_i hpath
      exact Or.inl hpath
    · exact Or.inr hnames
  apply ((List.forall₂_and_left _ _).mpr ⟨fun _ h => h, Plan.forall₂_seats hedits⟩).imp
  rintro x f ⟨hx, hf⟩
  have hlinked := Plan.linked_of_edit hf
  obtain ⟨previous, up, next, hrow⟩ := hlinked.row
  refine ⟨hlinked, ?_⟩
  intro o ho
  have hdocument : x.document ∈ tree.documents := by
    rw [← Entry.map_document_seats {}]
    exact List.mem_map_of_mem hx
  have hcwd : Path.isAbsolute o.filename ∨ ∀ c ∈ there.workingDirectory, Path.IsName c := by
    rw [← (hnear x hx o ho).isAbsolute_eq, habsolute _ hdocument]
    exact hstart
  obtain ⟨link, hlink, hleads⟩ := Render.exists_target (s := there) (hnear x hx o ho) hcwd
  rw [hrow.filename]
  exact ⟨link, Render.entryLink_eq_ok.mpr ⟨link, hlink, rfl⟩, hleads⟩

/-- With names that all end like those of Markdown files every link leads to its target: down to
the entries of a directory, over to neighbours and up. -/
theorem plan_leads_markdown :
    let fs : FileSystem := ⟨.directory [("w".toList, .directory [
      ("README.md".toList, .file []),
      ("a.md".toList, .file []),
      ("sub".toList, .directory [
        ("README.md".toList, .file []),
        ("b.md".toList, .file [])])])], ["w".toList]⟩
    ∃ tree edits, (load {} fs ".".toList).outcome = .ok tree ∧
      plan {} fs ".".toList = .ok edits ∧
      List.Forall₂ (fun f x => ∀ o ∈ Seat.targets x, ∃ link,
        Render.entryLink { workingDirectory := ["w".toList] } f.filename o =
            .ok (Render.link o.title link) ∧
          Path.Leads ["w".toList] f.filename link o.filename) edits (tree.seats {}) := by
  intro fs
  have hload : (load {} fs ".".toList).outcome.isOk := by decide +kernel
  obtain ⟨tree, htree⟩ := exists_ok_of_isOk hload
  obtain ⟨edits, hplan, hlinks⟩ := plan_leads_iff (by decide +kernel) (by decide) htree
  have hmarkdown : (plan {} fs ".".toList).toOption.map (·.all fun f =>
      Settings.isMarkdown {} f.filename) = some true := by decide +kernel
  rw [hplan] at hmarkdown
  have hmarkdown := List.all_eq_true.mp (Option.some.inj hmarkdown)
  refine ⟨tree, edits, htree, hplan, ?_⟩
  apply ((List.forall₂_and_left _ _).mpr ⟨hmarkdown, hlinks.flip⟩).imp
  rintro f x ⟨hf, -, hleads⟩ o ho
  obtain ⟨link, hlink, hiff⟩ := hleads o ho
  exact ⟨link, hlink, hiff.mpr (Or.inl hf)⟩

/-- A document that represents its directory under another name lists an entry by a path that leads
out of the directory. -/
theorem plan_not_leads :
    let s : Settings := { rootDocument := "index".toList }
    let fs : FileSystem := ⟨.directory [("w".toList, .directory [
      ("index".toList, .file []), ("a.md".toList, .file [])])], ["w".toList]⟩
    (plan s fs ".".toList).toOption.map (List.map fun f => (f.filename, f.edits.head?.map (·.content))) =
        some [("./a.md".toList, some (Marker.toc.wrap [])),
          ("./index".toList, some (Marker.toc.wrap (Render.listing ["[a](../a.md)".toList])))] ∧
      ¬ Path.Leads ["w".toList] "./index".toList "../a.md".toList "./a.md".toList := by
  decide +kernel

end DocTree
