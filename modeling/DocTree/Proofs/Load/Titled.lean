import DocTree.Proofs.Path.Respell
import DocTree.Proofs.Plan.Links
import Mathlib.Data.List.DropRight

/-!
# Titles that can be seen

The title of a document is what its first heading shows, if that is of the first level. A heading may
show nothing: text made of blanks does not count, nor does code, raw HTML or an image without a
description. So a document may have an empty title although its file has a name, and the links to it
are empty as well. There is no other way to an empty title.
-/
namespace DocTree

theorem Text.trim_eq_nil_iff {p : Char → Bool} {s : Text} : trim p s = [] ↔ ∀ c ∈ s, p c := by
  have htrim : trim p s = (s.dropWhile p).rdropWhile p := rfl
  rw [htrim, List.rdropWhile_eq_nil_iff]
  constructor
  · intro h c hc
    rw [← List.takeWhile_append_dropWhile (p := p) (l := s)] at hc
    rcases List.mem_append.mp hc with hc | hc
    · exact List.mem_takeWhile_imp hc
    · exact h c hc
  · intro h c hc
    exact h c ((List.dropWhile_sublist p).mem hc)

namespace Markdown

/-- There is nothing but blanks in the text of some content, whatever else it holds. -/
def Inline.ShowsNothing (content : List Inline) : Prop :=
  ∀ s, .text s ∈ content → ∀ c ∈ s, Text.isBlank c

def Page.firstHeading? (p : Page) : Option (Nat × List Inline) :=
  p.findSome? fun b =>
    match b.kind with
    | .heading level content => some (level, content)
    | _ => none

/-- The first heading of a page is of the first level and shows nothing. -/
def Page.HasEmptyTitle (p : Page) : Prop :=
  ∃ content, p.firstHeading? = some (1, content) ∧ Inline.ShowsNothing content

theorem Inline.leaves_eq_nil_iff {content : List Inline} :
    leaves content = [] ↔ ShowsNothing content := by
  rw [leaves, List.filterMap_eq_nil_iff]
  constructor
  · intro h s hs
    have hnone := h _ hs
    rw [← Text.trim_eq_nil_iff]
    cases htrim : Text.trim Text.isBlank s with
    | nil => rfl
    | cons c t => simp [htrim] at hnone
  · intro h piece hpiece
    cases piece with
    | text s =>
      have htrim := Text.trim_eq_nil_iff.mpr (h s hpiece)
      simp only [htrim]
    | _ => rfl

theorem Inline.ne_nil_of_mem_leaves {content : List Inline} {leaf : Text}
    (h : leaf ∈ leaves content) : leaf ≠ [] := by
  obtain ⟨piece, -, hpiece⟩ := List.mem_filterMap.mp h
  cases piece with
  | text s =>
    simp only at hpiece
    split at hpiece
    · cases hpiece
    · rename_i hne
      cases hpiece
      exact hne
  | _ => cases hpiece

/-- The plain text of some content is empty exactly if the content shows nothing. -/
theorem Inline.plainText_leaves_eq_nil_iff {content : List Inline} :
    plainText (leaves content) = [] ↔ ShowsNothing content := by
  rw [← leaves_eq_nil_iff]
  constructor
  · intro h
    cases hleaves : leaves content with
    | nil => rfl
    | cons leaf rest =>
      have hne : leaf ≠ [] := ne_nil_of_mem_leaves (by rw [hleaves]; exact List.mem_cons_self)
      rw [hleaves, plainText] at h
      cases rest <;> simp [hne, List.intercalate_cons_cons] at h
  · intro h
    rw [h]
    rfl

theorem Page.head?_titles (p : Page) :
    (titles p).head?.map (fun t => (t.level, t.text)) =
      p.firstHeading?.map fun h => (h.1, plainText (Inline.leaves h.2)) := by
  rw [titles, List.head?_filterMap, firstHeading?, List.map_findSome?, List.map_findSome?]
  refine congrArg (List.findSome? · p) (funext fun b => ?_)
  simp only [Function.comp_apply]
  cases b.kind <;> rfl

end Markdown

namespace Load

theorem titled_fst (default : Text) (titles : List Markdown.Page.Title) :
    (titled default titles).1 =
      match titles.head?.map fun t => (t.level, t.text) with
      | some (1, text) => text
      | _ => default := by
  cases titles with
  | nil => rfl
  | cons t rest =>
    rw [titled]
    split
    · rename_i hlevel
      simp [hlevel]
    · rename_i hlevel
      simp only [List.head?_cons, Option.map_some]
      split
      · rename_i heq
        simp_all
      · rfl

/-- The title of a document whose file has a name is empty exactly if the text begins with a heading of
the first level that shows nothing. -/
theorem title_ofText_eq_nil_iff {s : Settings} {filename : Text}
    (hstem : s.stem (Path.baseName filename) ≠ []) (text : Text) :
    (ofText s filename text).title = [] ↔ (Markdown.Page.ofText text).HasEmptyTitle := by
  have htitle : (ofText s filename text).title = (titled (s.stem (Path.baseName filename))
      (Markdown.Page.titles (Markdown.Page.ofText text))).1 := rfl
  rw [htitle, titled_fst, Markdown.Page.head?_titles, Markdown.Page.HasEmptyTitle]
  cases hfirst : (Markdown.Page.ofText text).firstHeading? with
  | none => simp [hstem]
  | some first =>
    obtain ⟨level, content⟩ := first
    by_cases hlevel : level = 1
    · subst hlevel
      simp [Markdown.Inline.plainText_leaves_eq_nil_iff]
    · simp [hlevel, hstem]

end Load

/-- An entry has the title of the document that it is or that represents it, and this has been read.
Without such a document it has a title that is not empty. -/
def Entry.IsTitled (s : Settings) (fs : FileSystem) (o : Entry) : Prop :=
  match o.own? with
  | some d => o.title = d.title ∧ d.IsRead s fs
  | none => o.title ≠ []

/-- What is around an entry of a directory are other entries of it and its own document. -/
theorem Nav.mem_targets_around {entries : List Entry} {root : Option Document} {i : Nat} {o : Entry}
    (ho : o ∈ (around entries root i).targets) : o ∈ entries ∨ ∃ d ∈ root, o = .document d := by
  rcases mem_targets.mp ho with hprevious | hup | hnext
  · cases i with
    | zero => cases hprevious
    | succ i => exact Or.inl (List.mem_of_getElem? hprevious)
  · obtain ⟨d, hd, rfl⟩ := Option.map_eq_some_iff.mp hup
    exact Or.inr ⟨d, hd, rfl⟩
  · exact Or.inl (List.mem_of_getElem? hnext)

namespace Load

variable {s : Settings} {fs : FileSystem} {path : Text}

/-- A directory that has been read under a name has its document's title, or else that name. -/
theorem directoryWithin_isTitled {room : Nat} {name : Text} (hname : Path.IsName name) {e : Entry}
    (h : (directoryWithin s fs room (Path.join path name)).outcome = .ok e) : e.IsTitled s fs := by
  cases room with
  | zero => cases h
  | succ room =>
    obtain ⟨names, root, loaded, -, hroot, -, rfl⟩ := directoryWithin_eq_ok.mp h
    cases root with
    | none =>
      rw [Path.baseName_normal_join path hname]
      exact hname.ne_nil
    | some d => exact ⟨rfl, rootDocument_isRead hroot d rfl⟩

theorem entry_isTitled {room : Nat} {name : Text} (hname : Path.IsName name) {e : Entry}
    (h : (entry s fs (directoryWithin s fs room) (Path.join path name)).outcome = .ok e)
    (hlisted : Listing.isListed s e) : e.IsTitled s fs := by
  obtain ⟨n, -, ⟨-, h⟩ | ⟨-, h⟩⟩ := entry_eq_ok h
  · exact directoryWithin_isTitled hname h
  · obtain ⟨d, rfl, -, ⟨-, hread⟩ | ⟨hmarkdown, rfl⟩⟩ := file_eq_ok h
    · exact ⟨rfl, hread⟩
    · exact absurd hlisted hmarkdown

/-- All that the documents of a loaded directory link to is titled, given that what the directory leads
to is. -/
theorem directoryWithin_targets (hnamed : fs.root.isNamed) {room : Nat} {e : Entry}
    (he : (directoryWithin s fs room path).outcome = .ok e) {n : Nav}
    (hn : ∀ o ∈ n.targets, o.IsTitled s fs) :
    ∀ x ∈ e.seats n, ∀ o ∈ x.targets, o.IsTitled s fs := by
  induction room generalizing path e n with
  | zero => cases he
  | succ room ih =>
    obtain ⟨names, root, loaded, hnames, hroot, hloaded, rfl⟩ := directoryWithin_eq_ok.mp he
    have hlisted : ∀ o ∈ loaded.filter (Listing.isListed s), o.IsTitled s fs := by
      intro o ho
      obtain ⟨hmem, hlisted⟩ := List.mem_filter.mp ho
      obtain ⟨name, hname, hentry⟩ := exists_of_mem_mapM hloaded o hmem
      obtain ⟨hname, -⟩ := Listing.mem_sort_visible.mp hname
      exact entry_isTitled ((FileSystem.names_isName hnamed hnames).2 name hname) hentry hlisted
    intro x hx
    rw [Entry.seats] at hx
    rcases List.mem_append.mp hx with hx | hx
    · obtain ⟨i, e, he, hx⟩ := Entry.mem_seatsOf hx
      have haround : ∀ o ∈ (Nav.around (loaded.filter (Listing.isListed s)) root i).targets,
          o.IsTitled s fs := by
        intro o ho
        rcases Nav.mem_targets_around ho with ho | ⟨d, hd, rfl⟩
        · exact hlisted o ho
        · exact ⟨rfl, rootDocument_isRead hroot d hd⟩
      rw [← Nav.around] at hx
      obtain ⟨name, -, hentry⟩ :=
        exists_of_mem_mapM hloaded e (List.mem_filter.mp (List.mem_of_getElem? he)).1
      obtain ⟨m, -, ⟨-, hentry⟩ | ⟨-, hentry⟩⟩ := entry_eq_ok hentry
      · exact ih hentry haround x hx
      · obtain ⟨d, rfl, -⟩ := file_eq_ok hentry
        cases List.mem_singleton.mp hx
        intro o ho
        exact haround o (by simpa [Seat.targets] using ho)
    · obtain ⟨d, -, rfl⟩ := List.mem_map.mp hx
      intro o ho
      rcases List.mem_append.mp ho with ho | ho
      · exact hn o ho
      · exact hlisted o ho

end Load

/-- All that the documents of a loaded tree link to is titled. -/
theorem load_targets {s : Settings} {fs : FileSystem} {path : Text} (hnamed : fs.root.isNamed)
    {tree : Entry} (h : (load s fs path).outcome = .ok tree) :
    ∀ x ∈ tree.seats {}, ∀ o ∈ x.targets, o.IsTitled s fs := by
  rw [outcome_load] at h
  obtain ⟨n, -, h⟩ := bind_eq_ok.mp h
  split at h
  · exact Load.directoryWithin_targets hnamed h (by simp [Nav.targets])
  · obtain ⟨d, -, h⟩ := bind_eq_ok.mp h
    cases h
    intro x hx
    cases List.mem_singleton.mp hx
    simp [Seat.targets, Nav.targets]

/-- An entry without a title is or is represented by a document that begins with a heading of the first
level that shows nothing. -/
theorem Entry.IsTitled.title_eq_nil_iff {s : Settings} {fs : FileSystem} {o : Entry}
    (h : o.IsTitled s fs) : (o.own? = none → o.title ≠ []) ∧
      ∀ d, o.own? = some d → ∃ text, fs.readText d.filename = .ok text ∧
        (s.stem (Path.baseName d.filename) ≠ [] →
          (o.title = [] ↔ (Markdown.Page.ofText text).HasEmptyTitle)) := by
  rw [IsTitled] at h
  cases hown : o.own? with
  | none =>
    rw [hown] at h
    exact ⟨fun _ => h, by simp⟩
  | some d =>
    rw [hown] at h
    obtain ⟨htitle, text, htext, hd⟩ := h
    have hread : o.title = (Load.ofText s d.filename text).title :=
      htitle.trans (congrArg Document.title hd)
    refine ⟨by simp, ?_⟩
    rintro _ ⟨⟩
    refine ⟨text, htext, fun hstem => ?_⟩
    rw [hread]
    exact Load.title_ofText_eq_nil_iff hstem text

/-- All that the blocks of a document lead to has a name if what is around it does. -/
theorem Seat.Named.target {x : Seat} (h : x.Named) {o : Entry} (ho : o ∈ x.targets) : o.Named := by
  obtain ⟨⟨hprevious, hnext, hup⟩, hentries⟩ := h
  rcases List.mem_append.mp ho with ho | ho
  · rcases Nav.mem_targets.mp ho with ho | ho | ho
    · exact hprevious o ho
    · exact hup o ho
    · exact hnext o ho
  · cases hlist : x.entries? with
    | none => simp [hlist] at ho
    | some entries =>
      rw [hlist] at ho
      exact Entry.namedAll_iff.mp (hentries entries hlist) o ho

/-- The title of a document whose file has a name, without the ending of Markdown files, is empty exactly
if the text begins with a heading of the first level that shows nothing. So it is with the label of every
link that the plan of a loaded tree writes: it is empty exactly if the document that it leads to, or that
represents the directory it leads to, has such a text. The label of a directory without a document of its
own is never empty. -/
theorem plan_visible_iff {s : Settings} {fs : FileSystem} {path : Text} (hnamed : fs.root.isNamed)
    {tree : Entry} (hload : (load s fs path).outcome = .ok tree) :
    let there : Settings := { s with workingDirectory := fs.workingDirectory }
    (∀ filename text, fs.readText filename = .ok text → s.stem (Path.baseName filename) ≠ [] →
      ∃ d, (Load.document s fs filename).outcome = .ok d ∧
        (d.title = [] ↔ (Markdown.Page.ofText text).HasEmptyTitle)) ∧
    ∃ edits, plan s fs path = .ok edits ∧
      List.Forall₂ (fun x f => Plan.Linked there x f ∧ ∀ o ∈ x.targets,
        (∃ link, Render.entryLink there f.filename o = .ok (Render.link o.title link)) ∧
        (o.own? = none → o.title ≠ []) ∧
        ∀ d, o.own? = some d → ∃ text, fs.readText d.filename = .ok text ∧
          (s.stem (Path.baseName d.filename) ≠ [] →
            (o.title = [] ↔ (Markdown.Page.ofText text).HasEmptyTitle)))
        (tree.seats {}) edits := by
  intro there
  constructor
  · intro filename text htext hstem
    refine ⟨_, ?_, Load.title_ofText_eq_nil_iff hstem text⟩
    rw [Load.outcome_document, htext]
    rfl
  · obtain ⟨edits, hedits, hplan⟩ := exists_plan hload
    refine ⟨edits, hplan, ?_⟩
    have hseats : ∀ x ∈ tree.seats {}, (∀ o ∈ x.targets, o.IsTitled s fs) ∧ x.Named := by
      intro x hx
      have hempty : Nav.Named {} := ⟨by simp, by simp, by simp⟩
      exact ⟨load_targets hnamed hload x hx, (load_named hload).seats hempty x hx⟩
    apply ((List.forall₂_and_left _ _).mpr ⟨hseats, Plan.forall₂_seats hedits⟩).imp
    rintro x f ⟨⟨hx, hnamed⟩, hf⟩
    refine ⟨Plan.linked_of_edit hf, fun o ho => ⟨?_, (hx o ho).title_eq_nil_iff⟩⟩
    obtain ⟨shown, hshown⟩ := exists_entryLink there f.filename (hnamed.target ho)
    obtain ⟨link, -, rfl⟩ := Render.entryLink_eq_ok.mp hshown
    exact ⟨link, hshown⟩

/-- A heading without text leaves its document without a title; a directory without a document of its own
has its name. -/
theorem plan_visible_missing :
    let fs : FileSystem := ⟨.directory [("w".toList, .directory [
      ("README.md".toList, .file (Text.Utf8.encode "# Docs\n".toList)),
      ("a.md".toList, .file (Text.Utf8.encode "#\n".toList)),
      ("sub".toList, .directory [("b.md".toList, .file [])])])], ["w".toList]⟩
    ∃ tree edits d, (load {} fs ".".toList).outcome = .ok tree ∧ plan {} fs ".".toList = .ok edits ∧
      (Load.document {} fs "a.md".toList).outcome = .ok d ∧ d.title = [] ∧
      (Markdown.Page.ofText "#\n".toList).HasEmptyTitle ∧
      List.Forall₂ (fun x _ => ∀ o ∈ Seat.targets x, o.own? = none → o.title ≠ [])
        (tree.seats {}) edits := by
  intro fs
  have hload : (load {} fs ".".toList).outcome.isOk := by decide +kernel
  obtain ⟨tree, htree⟩ := exists_ok_of_isOk hload
  obtain ⟨htitles, edits, hplan, hlinks⟩ := plan_visible_iff (by decide +kernel) htree
  obtain ⟨d, hd, htitle⟩ := htitles "a.md".toList "#\n".toList (by decide +kernel) (by decide)
  have hempty : (Load.document {} fs "a.md".toList).outcome.toOption.map Document.title = some [] := by
    decide +kernel
  rw [hd] at hempty
  have hempty : d.title = [] := Option.some.inj hempty
  exact ⟨tree, edits, d, htree, hplan, hd, hempty, htitle.mp hempty,
    hlinks.imp fun _ _ h o ho => (h.2 o ho).2.1⟩

/-- A title in code and one that is missing: the document and the directory's own lead to each other by
links that show nothing. -/
theorem plan_shows_nothing :
    let fs : FileSystem := ⟨.directory [("w".toList, .directory [
      ("README.md".toList, .file (Text.Utf8.encode "# `tool`\n".toList)),
      ("a.md".toList, .file (Text.Utf8.encode "#\n".toList))])], ["w".toList]⟩
    Settings.stem {} (Path.baseName "a.md".toList) = "a".toList ∧
      (Load.document {} fs "a.md".toList).outcome.toOption.map Document.title = some [] ∧
      (plan {} fs ".".toList).toOption.map (List.map fun f => (f.filename, f.edits.map (·.content))) =
        some [("./a.md".toList, [Marker.toc.wrap [],
            Marker.nav.wrap (Render.table [] "[](README.md)".toList [])]),
          ("./README.md".toList, [Marker.toc.wrap (Render.listing ["[](a.md)".toList]),
            Marker.nav.wrap []])] := by
  decide +kernel

end DocTree
