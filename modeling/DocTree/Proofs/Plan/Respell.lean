import DocTree.Proofs.Load.Respell
import DocTree.Proofs.Plan.Named

/-!
# Plans of a directory under two names

Links lead from document to document below a directory, so they do not tell under which name the
directory was loaded. The edits that are planned are the same, for files that lead on from the
directory in one way.
-/
namespace DocTree

namespace Render

variable {s : Settings} {p q a b : Text}

section

variable (hextension : '/' ∉ s.extension.tail) (hp : p ≠ []) (hq : q ≠ [])
  (h : Path.Alongside p q a b)

include hextension hp hq h

theorem target_twin {o o' : Entry} (ho : o.Twin p q o') : target s b o' = target s a o := by
  obtain ⟨hne, hne'⟩ := ho.alongside.ne_nil hp hq
  have hmarkdown := Load.isMarkdown_alongside hextension hp hq h
  simp only [target, hmarkdown, List.isEmpty_iff, hne, hne', if_false]
  split
  · rw [h.relative_dirName ho.alongside hp hq]
  · rw [h.relative ho.alongside hp hq]

theorem entryLink_twin {o o' : Entry} (ho : o.Twin p q o') : entryLink s b o' = entryLink s a o := by
  rw [entryLink, entryLink, target_twin hextension hp hq h ho, ho.title]

theorem cell_twin {o o' : Option Entry} (ho : Option.Rel (Entry.Twin p q) o o') :
    cell s b o' = cell s a o := by
  cases ho with
  | none => rfl
  | some ho => exact entryLink_twin hextension hp hq h ho

theorem nav_twin {n n' : Nav} (hn : Nav.Twin p q n n') : nav s b n' = nav s a n := by
  have hnone : ∀ {o o' : Option Entry}, Option.Rel (Entry.Twin p q) o o' → o'.isNone = o.isNone := by
    rintro _ _ (_ | _) <;> rfl
  have hempty : n'.isEmpty = n.isEmpty := by
    rw [Nav.isEmpty, Nav.isEmpty, hnone hn.previous, hnone hn.next, hnone hn.up]
  rw [nav, nav, hempty, cell_twin hextension hp hq h hn.previous,
    cell_twin hextension hp hq h hn.up, cell_twin hextension hp hq h hn.next]

theorem fileToc_twin {entries entries' : List Entry}
    (hentries : List.Forall₂ (Entry.Twin p q) entries entries') :
    fileToc s b entries' = fileToc s a entries := by
  have hlinks : entries'.mapM (entryLink s b) = entries.mapM (entryLink s a) := by
    induction hentries with
    | nil => rfl
    | cons ho _ ih => rw [List.mapM_cons, List.mapM_cons, entryLink_twin hextension hp hq h ho, ih]
  have hempty : entries'.isEmpty = entries.isEmpty := by
    cases hentries <;> rfl
  rw [fileToc, fileToc, hempty, hlinks]

end

end Render

/-- Where a block goes in a document is decided by its page and by the number of its lines. -/
theorem Document.editFor_congr {d d' : Document} (hpage : d'.page = d.page)
    (hcount : d'.lineCount = d.lineCount) (m : Marker) (content : Text) (locations : List Location) :
    d'.editFor m content locations = d.editFor m content locations := by
  obtain ⟨_, _, _, _, _⟩ := d
  obtain ⟨_, _, _, _, _⟩ := d'
  cases hpage
  cases hcount
  rfl

/-- One file is edited in one way under two names, which lead on from `p` and from `q` alike. -/
structure FileEdit.Respelled (p q : Text) (f g : FileEdit) : Prop where
  filename : Path.Alongside p q f.filename g.filename
  edits : g.edits = f.edits

section

variable {s : Settings} {p q : Text}

theorem Document.Twin.fileEdit {d d' : Document} (h : d.Twin p q d') (toc nav : Text) :
    FileEdit.Respelled p q (Plan.fileEdit d toc nav) (Plan.fileEdit d' toc nav) where
  filename := h.alongside
  edits := by simp only [Plan.fileEdit, Document.editFor_congr h.page h.lineCount]

/-- Documents in seats alike have the same edits. -/
theorem Seat.Twin.edit (hextension : '/' ∉ s.extension.tail) (hp : p ≠ []) (hq : q ≠ [])
    {x y : Seat} (h : x.Twin p q y) {f : FileEdit} (hf : x.edit s = .ok f) :
    ∃ g, y.edit s = .ok g ∧ f.Respelled p q g := by
  obtain ⟨d, n, entries?⟩ := x
  obtain ⟨d', n', entries'?⟩ := y
  obtain ⟨hd, hn, hentries⟩ := h
  have hnav : Render.nav s d'.filename n' = Render.nav s d.filename n :=
    Render.nav_twin hextension hp hq hd.alongside hn
  cases hentries with
  | none =>
    obtain ⟨nav, hshown, rfl⟩ := Plan.ofDocument_eq_ok.mp hf
    have htoc : Render.sectionToc d'.sections s.tocDepth = Render.sectionToc d.sections s.tocDepth := by
      rw [hd.sections, Section.sectionToc_underAll]
    have hedit := hd.fileEdit (Render.sectionToc d'.sections s.tocDepth) nav
    rw [htoc] at hedit
    exact ⟨_, Plan.ofDocument_eq_ok.mpr ⟨nav, hnav.trans hshown, by rw [htoc]⟩, hedit⟩
  | some hlisted =>
    obtain ⟨toc, htoc, nav, hshown, rfl⟩ := Plan.ofRoot_eq_ok.mp hf
    have htoc' := (Render.fileToc_twin hextension hp hq hd.alongside hlisted).trans htoc
    exact ⟨_, Plan.ofRoot_eq_ok.mpr ⟨toc, htoc', nav, hnav.trans hshown, rfl⟩, hd.fileEdit toc nav⟩

/-- Trees with the same documents in the same seats have the same plan. -/
theorem Entry.SeatsAlike.plan (hextension : '/' ∉ s.extension.tail) (hp : p ≠ []) (hq : q ≠ [])
    {e e' : Entry} (h : e.SeatsAlike p q e') {edits : List FileEdit}
    (hedits : Plan.ofEntry s e {} = .ok edits) :
    ∃ again, Plan.ofEntry s e' {} = .ok again ∧ List.Forall₂ (FileEdit.Respelled p q) edits again := by
  have hseats := h {} {} (Nav.twin_empty p q)
  rw [Plan.ofEntry_eq] at hedits ⊢
  generalize e.seats {} = seats at hedits hseats
  generalize e'.seats {} = seats' at hseats ⊢
  induction hseats generalizing edits with
  | nil =>
    cases hedits
    exact ⟨[], rfl, .nil⟩
  | cons hseat _ ih =>
    rw [List.mapM_cons] at hedits
    obtain ⟨f, hf, hedits⟩ := bind_eq_ok.mp hedits
    obtain ⟨rest, hrest, hedits⟩ := bind_eq_ok.mp hedits
    cases hedits
    obtain ⟨g, hg, hrespelled⟩ := hseat.edit hextension hp hq hf
    obtain ⟨again, hagain, hall⟩ := ih hrest
    rw [List.mapM_cons, hg, hagain]
    exact ⟨g :: again, rfl, .cons hrespelled hall⟩

end

/-- A directory that can be loaded is planned alike under each of its names: the plans have one edit
for each of the same files in the same order, with the same changes, and the two names of a file lead
on from those of the directory in one way. Loading under the second name fails only at a path that
is too long or leads through too many links. The directory's own document is named by a path that
leads down, and the ending of Markdown files holds no slash but in front. -/
theorem plan_respelled {s : Settings} {fs : FileSystem} {p q : Text} {here : List Text}
    (hnamed : fs.root.isNamed) (hextension : '/' ∉ s.extension.tail)
    (hrootDocument : Path.Descends s.rootDocument) (hsame : fs.SameDirectory p q here) {tree : Entry}
    (h : (load s fs p).outcome = .ok tree) :
    ∃ edits, plan s fs p = .ok edits ∧
      ((∃ again, plan s fs q = .ok again ∧ List.Forall₂ (FileEdit.Respelled p q) edits again) ∨
        Limited (load s fs q).outcome) := by
  obtain ⟨hp, hq⟩ := hsame.ne_nil
  obtain ⟨edits, hedits, hplan⟩ := exists_plan h
  refine ⟨edits, hplan, ?_⟩
  refine (load_alongside hsame hnamed hextension hrootDocument tree h).imp_left ?_
  rintro ⟨tree', htree', halike⟩
  have hextension : '/' ∉ { s with workingDirectory := fs.workingDirectory }.extension.tail := hextension
  obtain ⟨again, hagain, hrespelled⟩ := halike.plan hextension hp hq hedits
  exact ⟨again, plan_eq_ok.mpr ⟨tree', htree', hagain⟩, hrespelled⟩

/-- A directory with another one below it, under its name and behind a link. -/
theorem plan_respelled_linked :
    ∃ fs edits again, plan {} fs "docs".toList = .ok edits ∧ plan {} fs ".//link/".toList = .ok again ∧
      List.Forall₂ (FileEdit.Respelled "docs".toList ".//link/".toList) edits again ∧
      edits.map FileEdit.filename =
        ["docs/a.md".toList, "docs/b/c.md".toList, "docs/README.md".toList] := by
  let fs : FileSystem := ⟨.directory [
    ("docs".toList, .directory [
      ("README.md".toList, .file (Text.Utf8.encode "# Top\n".toList)),
      ("b".toList, .directory [("c.md".toList, .file (Text.Utf8.encode "## Part\n".toList))]),
      ("a.md".toList, .file (Text.Utf8.encode "x".toList))]),
    ("link".toList, .link "docs".toList)], []⟩
  have hsame : fs.SameDirectory "docs".toList ".//link/".toList ["docs".toList] :=
    ⟨by decide +kernel, by decide +kernel, _, rfl⟩
  have hload : (load {} fs "docs".toList).outcome.isOk := by decide +kernel
  have hagain : (load {} fs ".//link/".toList).outcome.isOk := by decide +kernel
  obtain ⟨tree, htree⟩ := exists_ok_of_isOk hload
  obtain ⟨tree', htree'⟩ := exists_ok_of_isOk hagain
  obtain ⟨edits, hplan, ⟨again, hplan', hall⟩ | hlimit⟩ :=
    plan_respelled (s := {}) (by decide : fs.root.isNamed) (by decide) (by decide) hsame htree
  · have hnames : (plan {} fs "docs".toList).toOption.map (List.map FileEdit.filename) =
        some ["docs/a.md".toList, "docs/b/c.md".toList, "docs/README.md".toList] := by decide +kernel
    rw [hplan] at hnames
    exact ⟨fs, edits, again, hplan, hplan', hall, Option.some.inj hnames⟩
  · rw [htree'] at hlimit
    exact absurd hlimit (not_limited_ok tree')

/-- An ending that reaches into the name of the directory fits one spelling and not another; a
document of the directory's own outside of it sees the entries where the directory's name says. -/
theorem plan_tells_name :
    (let s : Settings := { extension := "docs/a.md".toList }
     let fs : FileSystem := ⟨.directory [("docs".toList, .directory [("a.md".toList, .file [])])], []⟩
     fs.resolve "docs".toList = .ok ["docs".toList] ∧ fs.resolve "docs/.".toList = .ok ["docs".toList] ∧
      (plan s fs "docs".toList).toOption.map List.length = some 1 ∧
      (plan s fs "docs/.".toList).toOption.map List.length = some 0) ∧
    ∀ name ∈ ["../README.md".toList, "/README.md".toList],
      let s : Settings := { rootDocument := name }
      let fs : FileSystem := ⟨.directory [("README.md".toList, .file []),
        ("docs".toList, .directory [("a.md".toList, .file [])]), ("link".toList, .link "docs".toList)], []⟩
      fs.resolve "docs".toList = .ok ["docs".toList] ∧ fs.resolve "link".toList = .ok ["docs".toList] ∧
        (plan s fs "docs".toList).toOption.isSome ∧ (plan s fs "link".toList).toOption.isSome ∧
        (plan s fs "docs".toList).toOption.map (List.map FileEdit.edits) ≠
          (plan s fs "link".toList).toOption.map (List.map FileEdit.edits) := by
  decide +kernel

end DocTree
