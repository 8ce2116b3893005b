import DocTree.Proofs.Plan.Links
import DocTree.Proofs.Render.Shown

/-!
# Forged markers

A planned block begins and ends with its marker lines. Between them a marker line stands exactly if
a title or a path that the block shows holds it between two breaks of its own. The titles are those
of sections or entries; anchors hold no break.
-/
namespace DocTree

namespace Heading

/-- Only letters become other characters in lower case, and these are letters again. -/
theorem toLower_eq_iff {c d : Char} (hd : d.toNat < 48) : c.toLower = d ↔ c = d := by
  unfold Char.toLower
  split
  · rename_i h
    have hlow : 65 ≤ c.toNat := UInt32.le_iff_toNat_le.mp h.1
    have hhigh : c.toNat ≤ 90 := UInt32.le_iff_toNat_le.mp h.2
    constructor
    · intro hc
      have hsum : (c.val + 32).toNat = d.toNat := congrArg Char.toNat hc
      have hwrap : (c.val + 32).toNat = (c.toNat + 32) % 4294967296 := UInt32.toNat_add _ _
      omega
    · rintro rfl
      omega
  · rfl

theorem toLower_ne_break {c : Char} (h : c.isAlphanum) : c.toLower ≠ '\n' ∧ c.toLower ≠ '\r' := by
  rw [ne_eq, ne_eq, toLower_eq_iff (by decide), toLower_eq_iff (by decide)]
  constructor
  · rintro rfl
    cases h
  · rintro rfl
    cases h

theorem slugFrom_unbroken (started gap : Bool) (title : Text) :
    (slugFrom started gap title).Unbroken := by
  fun_induction slugFrom started gap title with
  | case1 => decide
  | case2 started gap c rest hc _ ih =>
    obtain ⟨hlf, hcr⟩ := toLower_ne_break hc
    exact Text.unbroken_cons.mpr ⟨by decide, by decide, Text.unbroken_cons.mpr ⟨hlf, hcr, ih⟩⟩
  | case3 started gap c rest hc _ ih =>
    obtain ⟨hlf, hcr⟩ := toLower_ne_break hc
    exact Text.unbroken_cons.mpr ⟨hlf, hcr, ih⟩
  | case4 started gap c rest _ ih => exact ih

theorem anchor_unbroken (title : Text) : (anchor title).Unbroken :=
  Text.unbroken_cons.mpr ⟨by decide, by decide, slugFrom_unbroken false false title⟩

end Heading

mutual

/-- The anchors of a section and of those beneath it hold no break. -/
def Section.Anchored : Section → Prop
  | .mk _ _ anchor _ children => anchor.Unbroken ∧ Section.AnchoredAll children

def Section.AnchoredAll : List Section → Prop
  | [] => True
  | s :: rest => s.Anchored ∧ Section.AnchoredAll rest

end

namespace Section

theorem anchoredAll_iff {forest : List Section} :
    AnchoredAll forest ↔ ∀ x ∈ forest, x.Anchored := by
  induction forest with
  | nil => simp [AnchoredAll]
  | cons s rest ih => simp [AnchoredAll, ih]

theorem anchoredAll_nest (filename : Text) (headings : List Heading) :
    AnchoredAll (Heading.nest filename headings) := by
  induction headings with
  | nil => trivial
  | cons h headings ih =>
    have hforest := anchoredAll_iff.mp ih
    rw [Heading.nest, List.foldr_cons, ← Heading.nest, Heading.adopt]
    refine ⟨⟨Heading.anchor_unbroken h.title, anchoredAll_iff.mpr ?_⟩, anchoredAll_iff.mpr ?_⟩
    · exact fun x hx => hforest x ((List.takeWhile_subset _) hx)
    · exact fun x hx => hforest x ((List.dropWhile_subset _) hx)

mutual

theorem Anchored.flatten {s : Section} (h : s.Anchored) (limit : Int) :
    ∀ x ∈ s.flatten limit, x.anchor.Unbroken := by
  cases s with
  | mk level title anchor filename children =>
    obtain ⟨hanchor, hchildren⟩ := h
    rw [Section.flatten]
    split
    · simp
    · intro x hx
      rcases List.mem_cons.mp hx with rfl | hx
      · exact hanchor
      · exact AnchoredAll.flattenAll hchildren limit x hx

theorem AnchoredAll.flattenAll {forest : List Section} (h : AnchoredAll forest) (limit : Int) :
    ∀ x ∈ flattenAll limit forest, x.anchor.Unbroken := by
  cases forest with
  | nil => simp [Section.flattenAll]
  | cons s rest =>
    obtain ⟨hs, hrest⟩ := h
    intro x hx
    rw [Section.flattenAll] at hx
    rcases List.mem_append.mp hx with hx | hx
    · exact Anchored.flatten hs limit x hx
    · exact AnchoredAll.flattenAll hrest limit x hx

end

end Section

/-- The anchors of a document that was read hold no break. -/
theorem Document.IsRead.anchors {s : Settings} {fs : FileSystem} {d : Document} (h : d.IsRead s fs)
    (depth : Int) : ∀ x ∈ Section.flattenAll depth d.sections, x.anchor.Unbroken := by
  obtain ⟨text, -, hd⟩ := h
  rw [hd]
  exact (Section.anchoredAll_nest _ _).flattenAll depth

namespace Seat

/-- What the table of contents of a document shows: the titles of its sections, or the titles and
paths of the entries. -/
def tocTexts (s : Settings) (x : Seat) : List Text :=
  match x.entries? with
  | none => (Section.flattenAll s.tocDepth x.document.sections).map Section.title
  | some entries => entries.flatMap (Render.linkTexts s x.document.filename)

def navTexts (s : Settings) (x : Seat) : List Text :=
  x.nav.targets.flatMap (Render.linkTexts s x.document.filename)

end Seat

theorem Marker.encloses_toc {texts : List Text} {content : Text} (h : Render.Shows texts content) :
    toc.Encloses (toc.wrap content) texts :=
  encloses_wrap (by decide) (by decide) h

theorem Marker.encloses_nav {texts : List Text} {content : Text} (h : Render.Shows texts content) :
    nav.Encloses (nav.wrap content) texts :=
  encloses_wrap (by decide) (by decide) h

/-- Texts in one line or two forge nothing. -/
theorem Marker.Encloses.of_inner {m : Marker} {content : Text} {texts : List Text}
    (h : m.Encloses content texts) (hnone : ∀ t ∈ texts, t.inner = []) : m.Encloses content [] := by
  obtain ⟨middle, hlines, hforged⟩ := h
  refine ⟨middle, hlines, ?_⟩
  intro line hline
  rw [hforged line hline]
  constructor
  · rintro ⟨t, ht, hmem⟩
    rw [hnone t ht] at hmem
    cases hmem
  · rintro ⟨t, ht, -⟩
    cases ht

/-- The two blocks of a document whose anchors hold no break. -/
theorem Seat.exists_encloses {s : Settings} {x : Seat} {f : FileEdit} (h : x.edit s = .ok f)
    (hanchors : ∀ y ∈ Section.flattenAll s.tocDepth x.document.sections, y.anchor.Unbroken) :
    ∃ toc nav, f = ⟨x.document.filename, [toc, nav]⟩ ∧
      Marker.toc.Encloses toc.content (x.tocTexts s) ∧
      Marker.nav.Encloses nav.content (x.navTexts s) := by
  obtain ⟨d, n, entries?⟩ := x
  have hnav : ∀ {nav}, Render.nav s d.filename n = .ok nav →
      Render.Shows (navTexts s ⟨d, n, entries?⟩) nav := by
    intro nav hnav
    obtain ⟨previous, up, next, hprevious, hup, hnext, rfl⟩ := Render.nav_eq_ok.mp hnav
    exact Render.shows_table hprevious hup hnext
  cases entries? with
  | none =>
    obtain ⟨nav, hok, rfl⟩ := Plan.ofDocument_eq_ok.mp h
    exact ⟨_, _, rfl, Marker.encloses_toc (Render.shows_sectionToc hanchors),
      Marker.encloses_nav (hnav hok)⟩
  | some entries =>
    obtain ⟨toc, htoc, nav, hok, rfl⟩ := Plan.ofRoot_eq_ok.mp h
    obtain ⟨links, hlinks, rfl⟩ := Render.fileToc_eq_ok.mp htoc
    exact ⟨_, _, rfl, Marker.encloses_toc (Render.shows_listing hlinks),
      Marker.encloses_nav (hnav hok)⟩

/-- Every block that the plan of a loaded tree writes begins and ends with its marker lines. Between
them a marker line of either kind stands exactly if a title or a path that the block shows holds it
between two breaks. -/
theorem plan_forged_iff {s : Settings} {fs : FileSystem} {path : Text} {tree : Entry}
    (hload : (load s fs path).outcome = .ok tree) :
    let there : Settings := { s with workingDirectory := fs.workingDirectory }
    ∃ edits, plan s fs path = .ok edits ∧
      List.Forall₂ (fun x f => ∃ toc nav, f = FileEdit.mk x.document.filename [toc, nav] ∧
        Marker.toc.Encloses toc.content (x.tocTexts there) ∧
        Marker.nav.Encloses nav.content (x.navTexts there)) (tree.seats {}) edits := by
  intro there
  obtain ⟨edits, hedits, hplan⟩ := exists_plan hload
  refine ⟨edits, hplan, ?_⟩
  apply ((List.forall₂_and_left _ _).mpr ⟨fun _ h => h, Plan.forall₂_seats hedits⟩).imp
  rintro x f ⟨hx, hf⟩
  have hdocument : x.document ∈ tree.documents := by
    rw [← Entry.map_document_seats {}]
    exact List.mem_map_of_mem hx
  exact Seat.exists_encloses hf ((load_documents hload x.document hdocument).anchors s.tocDepth)

/-- Titles without lines of their own forge nothing, be they in two lines or of marker lines only. -/
theorem plan_forges_nothing :
    let fs : FileSystem := ⟨.directory [
      ("README.md".toList, .file (Text.Utf8.encode "# &#60;!-- END TOC --&#62;\n".toList)),
      ("a.md".toList, .file (Text.Utf8.encode "# A\n\n## B&#10;C\n".toList))], []⟩
    ∃ edits, plan {} fs ".".toList = .ok edits ∧
      ∀ f ∈ edits, ∃ toc nav, f.edits = [toc, nav] ∧ Marker.toc.Encloses toc.content [] ∧
        Marker.nav.Encloses nav.content [] := by
  intro fs
  have hload : (load {} fs ".".toList).outcome.isOk := by decide +kernel
  obtain ⟨tree, htree⟩ := exists_ok_of_isOk hload
  obtain ⟨edits, hplan, hblocks⟩ := plan_forged_iff htree
  have hinner : (load {} fs ".".toList).outcome.toOption.map (fun tree => (tree.seats {}).all
      fun x => (x.tocTexts {} ++ x.navTexts {}).all (·.inner.isEmpty)) = some true := by
    decide +kernel
  rw [htree] at hinner
  have hinner := List.all_eq_true.mp (Option.some.inj hinner)
  refine ⟨edits, hplan, ?_⟩
  intro f hf
  obtain ⟨x, hx, toc, nav, rfl, htoc, hnav⟩ := exists_left_of_forall₂ hblocks f hf
  have hnone : ∀ t ∈ x.tocTexts {} ++ x.navTexts {}, t.inner = [] := by
    intro t ht
    exact List.isEmpty_iff.mp (List.all_eq_true.mp (hinner x hx) t ht)
  exact ⟨toc, nav, rfl, htoc.of_inner fun t ht => hnone t (List.mem_append_left _ ht),
    hnav.of_inner fun t ht => hnone t (List.mem_append_right _ ht)⟩

/-- A title in three lines, the second of which is a marker line: the table of contents holds the
marker line before its end. -/
theorem plan_forges :
    let fs : FileSystem := ⟨.directory [("a.md".toList, .file (Text.Utf8.encode
      "## x&#10;&#60;!-- END TOC --&#62;&#10;y\n".toList))], []⟩
    (plan {} fs "a.md".toList).toOption.map
        (List.map fun f => f.edits.map fun e => (Lines.ofText e.content).lines) =
      some [[[Marker.toc.beginLine, "---".toList, "Table of Contents".toList, [], "- [x".toList,
          Marker.toc.endLine, "y](#x-end-toc-y)".toList, "---".toList, Marker.toc.endLine],
        [Marker.nav.beginLine, Marker.nav.endLine]]] := by
  decide +kernel

end DocTree
