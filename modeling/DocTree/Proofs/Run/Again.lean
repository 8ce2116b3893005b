import DocTree.Proofs.FileSystem.Edit
import DocTree.Proofs.Plan.Documents
import DocTree.Proofs.Plan.Keep
import DocTree.Proofs.Plan.View

/-!
# Running again

A second run succeeds wherever the first one did and plans edits of the same files. It changes
nothing exactly if the texts that the first run left stay as they are under their new edits. Where
the headings are those from before and what is found of the blocks is as it was written, that is so
exactly if every block is found. A block may not be found again: one that was put inside an open
code block is no marker any more, and the second run puts another one after it.
-/
namespace DocTree

variable {s : Settings} {fs : FileSystem} {path : Text} {edits : List FileEdit}

def rerun (s : Settings) (fs : FileSystem) (path : Text) : Run :=
  run s (run s fs path).fileSystem path

/-- A run carries out its plan, and succeeds if every file is edited. -/
theorem run_of_plan (h : plan s fs path = .ok edits) :
    (run s fs path).fileSystem = (fs.editAll edits).1 ∧
      (run s fs path).outcome =
        match (fs.editAll edits).2 with
        | some fault => .error (.fault fault)
        | none => .ok edits := by
  rw [run, h]
  cases hall : fs.editAll edits with
  | mk fs' fault => cases fault <;> simp [hall]

theorem run_eq_ok : (run s fs path).outcome = .ok edits ↔
    plan s fs path = .ok edits ∧ (fs.editAll edits).2 = none := by
  cases hplan : plan s fs path with
  | error failure => simp [run, hplan]
  | ok planned =>
    rw [(run_of_plan hplan).2]
    cases hall : (fs.editAll planned).2 with
    | none =>
      constructor
      · rintro h
        cases h
        exact ⟨rfl, hall⟩
      · exact And.left
    | some fault =>
      constructor
      · rintro ⟨⟩
      · rintro ⟨h, hnone⟩
        cases h
        rw [hall] at hnone
        cases hnone

/-- What is found of the blocks of a file is as it was written, and no block reaches into the other
when they are planned again. -/
structure FileEdit.StandsIn (f : FileEdit) (d : Document) (text : Text) : Prop where
  holds : ∀ p ∈ List.zip [Marker.toc, Marker.nav] f.edits, d.Holds text p.1 p.2.content
  apart : ∀ toc nav, (Plan.fileEdit d toc nav).edits.Pairwise fun e g => e.span.Apart g.span

/-- Blocks that stand in a text leave it as it is exactly if they are found when they are planned
again. -/
theorem FileEdit.StandsIn.edited_eq_iff {f : FileEdit} {d : Document} {text toc nav : Text}
    (h : f.StandsIn d text) (hd : d.Reads text)
    (hf : f.edits.map Edit.content = [Marker.toc.wrap toc, Marker.nav.wrap nav]) :
    text.edited (Plan.fileEdit d toc nav).edits = text ↔
      d.HasBlock Marker.toc ∧ d.HasBlock Marker.nav := by
  obtain ⟨a, b, hedits, ha, hb⟩ : ∃ a b, f.edits = [a, b] ∧
      a.content = Marker.toc.wrap toc ∧ b.content = Marker.nav.wrap nav := by
    obtain ⟨a, rest, hrest, ha, htail⟩ := List.map_eq_cons_iff.mp hf
    obtain ⟨b, none, rfl, hb, hnil⟩ := List.map_eq_cons_iff.mp htail
    rw [List.map_eq_nil_iff.mp hnil] at hrest
    exact ⟨a, b, hrest, ha, hb⟩
  have htoc := h.holds (Marker.toc, a) (by simp [hedits])
  have hnav := h.holds (Marker.nav, b) (by simp [hedits])
  rw [ha] at htoc
  rw [hb] at hnav
  exact Plan.edited_eq_iff hd htoc hnav (h.apart toc nav)

/-- What edits wrote into files is as it was written wherever it is found again, and stands among
the headings from before. -/
def Kept (s : Settings) (fs fs' : FileSystem) (edits : List FileEdit) : Prop :=
  ∀ f ∈ edits, ∀ text text', fs.readText f.filename = .ok text →
    fs'.readText f.filename = .ok text' →
      text'.headings = text.headings ∧ f.StandsIn (Load.ofText s f.filename text') text'

def Found (s : Settings) (fs : FileSystem) (edits : List FileEdit) : Prop :=
  ∀ f ∈ edits, ∀ text, fs.readText f.filename = .ok text →
    (Load.ofText s f.filename text).HasBlock Marker.toc ∧
      (Load.ofText s f.filename text).HasBlock Marker.nav

theorem Found.of_names {again : List FileEdit} (h : Found s fs edits)
    (hnames : again.map FileEdit.filename = edits.map FileEdit.filename) : Found s fs again := by
  intro g hg
  obtain ⟨f, hf, hname⟩ := FileSystem.exists_of_names hnames hg
  rw [← hname]
  exact h f hf

section

variable {fs' : FileSystem} {again : List FileEdit}

/-- The same is written again into files that keep their headings. -/
theorem Kept.contents_eq (h : fs.Alike fs') (hplan : plan s fs path = .ok edits)
    (hagain : plan s fs' path = .ok again) (hkept : Kept s fs fs' edits) :
    again.map FileEdit.contents = edits.map FileEdit.contents := by
  obtain ⟨e, he, hedits⟩ := plan_eq_ok.mp hplan
  obtain ⟨e', he', hedits'⟩ := plan_eq_ok.mp hagain
  have hsame : ∀ d ∈ e.documents, d.SameIn View.outline s fs' := by
    intro d hd text' htext'
    obtain ⟨f, hf, toc, nav, rfl⟩ := exists_left_of_forall₂ (Plan.ofEntry_isFor hedits) d hd
    obtain ⟨text, htext, hread⟩ := load_documents he d hd
    rw [hread]
    exact Load.outline_ofText (hkept _ hf text text' htext htext').1 s d.filename
  obtain ⟨e'', he'', hseen⟩ := load_seen h he hsame
  rw [he'] at he''
  cases he''
  have hcontents := (View.outline_decides
    { s with workingDirectory := fs.workingDirectory }).plan_eq hseen {}
  rw [h.workingDirectory] at hedits'
  rw [hedits, hedits'] at hcontents
  exact Except.ok.inj hcontents

/-- What is as it was written stays as it is if it is found again, and only then. -/
theorem Kept.unmoved_iff (h : fs.Alike fs') (hplan : plan s fs path = .ok edits)
    (hagain : plan s fs' path = .ok again) (hkept : Kept s fs fs' edits) :
    fs'.Unmoved again ↔ Found s fs' again := by
  refine forall₂_congr fun g hg => forall₂_congr fun text' htext' => ?_
  obtain ⟨e', he', hedits'⟩ := plan_eq_ok.mp hagain
  obtain ⟨d, hd, toc, nav, rfl⟩ := exists_right_of_forall₂ (Plan.ofEntry_isFor hedits') g hg
  obtain ⟨text, htext, hread⟩ := load_documents he' d hd
  have hmem : (Plan.fileEdit d toc nav).contents ∈ edits.map FileEdit.contents := by
    rw [← hkept.contents_eq h hplan hagain]
    exact List.mem_map_of_mem hg
  obtain ⟨f, hf, hcontents⟩ := List.mem_map.mp hmem
  have hname : f.filename = d.filename := congrArg Prod.fst hcontents
  have hblocks := congrArg Prod.snd hcontents
  have htexts : text = text' := Except.ok.inj (htext.symm.trans htext')
  subst htexts
  obtain ⟨before, hbefore, -⟩ := exists_ok_of_map_eq (h.symm.readText d.filename) htext
  rw [← hname] at hbefore htext
  have hstands := (hkept f hf before text hbefore htext).2
  rw [hname, ← hread] at hstands
  rw [show (Plan.fileEdit d toc nav).filename = d.filename from rfl, ← hread]
  exact hstands.edited_eq_iff (hread ▸ Load.ofText_reads s d.filename text) hblocks

/-- A plan is made again where there was one, for the same files. -/
theorem exists_plan_again (h : fs.Alike fs') (hplan : plan s fs path = .ok edits) :
    ∃ again, plan s fs' path = .ok again ∧
      again.map FileEdit.filename = edits.map FileEdit.filename := by
  obtain ⟨e, he, hedits⟩ := plan_eq_ok.mp hplan
  obtain ⟨e', he', hseen⟩ := load_seen (v := View.skeleton) h he fun _ _ _ _ => rfl
  have hnames := (View.skeleton_decides
    { s with workingDirectory := fs.workingDirectory }).plan_eq hseen {}
  obtain ⟨again, hagain, heq⟩ := exists_ok_of_map_eq hnames hedits
  refine ⟨again, plan_eq_ok.mpr ⟨e', he', ?_⟩, heq⟩
  rw [h.workingDirectory]
  exact hagain

end

/-- A run that succeeded succeeds again and plans edits of the same files. It leaves every file as
it is exactly if the texts that the first run left settle under the edits planned again: each stays
as it is, if the files stand at different places. Where what the first run wrote is kept, so far as
it is found, that is so exactly if all of it is found, and then nothing changes at all. -/
theorem rerun_sameFiles_iff (h : (run s fs path).outcome = .ok edits) :
    ∃ again, (rerun s fs path).outcome = .ok again ∧
      again.map FileEdit.filename = edits.map FileEdit.filename ∧
      ((run s fs path).fileSystem.SameFiles (rerun s fs path).fileSystem ↔
        (run s fs path).fileSystem.Settled again) ∧
      (fs.Separate edits →
        ((run s fs path).fileSystem.Settled again ↔ (run s fs path).fileSystem.Unmoved again)) ∧
      (Kept s fs (run s fs path).fileSystem edits →
        (Found s (run s fs path).fileSystem edits →
          (rerun s fs path).fileSystem = (run s fs path).fileSystem) ∧
        (fs.Separate edits →
          ((run s fs path).fileSystem.SameFiles (rerun s fs path).fileSystem ↔
            Found s (run s fs path).fileSystem edits))) := by
  obtain ⟨hplan, hall⟩ := run_eq_ok.mp h
  have halike : fs.Alike (run s fs path).fileSystem := by
    rw [(run_of_plan hplan).1]
    exact FileSystem.alike_editAll fs edits
  rw [rerun]
  generalize (run s fs path).fileSystem = fs' at halike
  obtain ⟨again, hagain, hnames⟩ := exists_plan_again halike hplan
  have hreadable : fs'.Readable again :=
    ((FileSystem.readable_of_editAll hall).of_alike halike).of_names hnames
  have hrun : (run s fs' path).outcome = .ok again :=
    run_eq_ok.mpr ⟨hagain, hreadable.editAll⟩
  rw [(run_of_plan hagain).1]
  have hsettled : fs.Separate edits → (fs'.Settled again ↔ fs'.Unmoved again) :=
    fun hseparate => ((hseparate.of_alike halike).of_names hnames).settled_iff
  have hfound : Kept s fs fs' edits → (fs'.Unmoved again ↔ Found s fs' edits) := by
    intro hkept
    rw [hkept.unmoved_iff halike hplan hagain]
    exact ⟨fun hf => hf.of_names hnames.symm, fun hf => hf.of_names hnames⟩
  refine ⟨again, hrun, hnames, FileSystem.sameFiles_editAll_iff, hsettled, ?_⟩
  intro hkept
  constructor
  · intro hf
    exact ((hfound hkept).mpr hf).editAll hreadable
  · intro hseparate
    rw [FileSystem.sameFiles_editAll_iff, hsettled hseparate, hfound hkept]

/-- A paragraph gets both blocks, which are found again. -/
theorem rerun_of_paragraph :
    ∃ fs path edits again, (run {} fs path).outcome = .ok edits ∧
      (rerun {} fs path).outcome = .ok again ∧
      again.map FileEdit.filename = edits.map FileEdit.filename ∧
      (rerun {} fs path).fileSystem = (run {} fs path).fileSystem := by
  let path := "a.md".toList
  let fs : FileSystem := ⟨.directory [(path, .file (Text.Utf8.encode "x\n".toList))], []⟩
  let d := Load.ofText {} path "x\n".toList
  let f := Plan.fileEdit d (Render.sectionToc d.sections 3) []
  have hholds : fs.Holds path [path] "x\n".toList := ⟨by decide +kernel, rfl⟩
  have hfind : fs.find path = .ok (.file (Text.Utf8.encode "x\n".toList)) :=
    FileSystem.find_eq_ok.mpr ⟨[path], hholds.resolve, rfl⟩
  have hload : (load {} fs path).outcome = .ok (.document d) := by
    rw [outcome_load]
    refine bind_eq_ok.mpr ⟨_, hfind, ?_⟩
    refine bind_eq_ok.mpr ⟨d, ?_, rfl⟩
    rw [Load.outcome_document, hholds.readText]
    rfl
  have hplan : plan {} fs path = .ok [f] := plan_eq_ok.mpr ⟨_, hload, rfl⟩
  have hreadable : fs.Readable [f] := by
    intro g hg
    rw [List.mem_singleton.mp hg]
    exact ⟨_, hholds.readText⟩
  have hrun : (run {} fs path).outcome = .ok [f] := run_eq_ok.mpr ⟨hplan, hreadable.editAll⟩
  let text := ("<!-- BEGIN NAV -->\n<!-- END NAV -->\nx\n" ++
    "<!-- BEGIN TOC -->\n<!-- END TOC -->\n").toList
  have hafter : (run {} fs path).fileSystem.readText path = .ok text := by
    have htext : fs.textAfter [path] "x\n".toList [f] = text := by decide +kernel
    have hfile := @FileSystem.at?_editAll fs [f] [path] _ hholds.at?
    rw [htext] at hfile
    rw [(run_of_plan hplan).1]
    have hleads := ((FileSystem.alike_editAll fs [f]).leadsTo path [path]).mpr hholds.leadsTo
    exact FileSystem.Holds.readText ⟨hleads, hfile⟩
  let d' := Load.ofText {} path text
  have htoc : d'.findMarker Marker.toc = some { start := 4, stop := some 6 } := by decide +kernel
  have hnav : d'.findMarker Marker.nav = some { start := 1, stop := some 3 } := by decide +kernel
  have hapart (toc nav : Text) :
      (Plan.fileEdit d' toc nav).edits.Pairwise fun e g => e.span.Apart g.span := by
    rw [Plan.fileEdit_edits, List.pairwise_pair, Document.editFor, Document.editFor, htoc, hnav]
    exact Or.inr (show 3 ≤ 4 by decide)
  have hkept : Kept {} fs (run {} fs path).fileSystem [f] := by
    intro g hg t t' ht ht'
    rw [List.mem_singleton.mp hg] at ht ht' ⊢
    cases hholds.readText.symm.trans ht
    cases hafter.symm.trans ht'
    refine ⟨by decide +kernel, ?_, hapart⟩
    intro p hp span hspan _
    rcases List.mem_pair.mp hp with rfl | rfl
    · cases htoc.symm.trans hspan
      decide +kernel
    · cases hnav.symm.trans hspan
      decide +kernel
  have hfound : Found {} (run {} fs path).fileSystem [f] := by
    intro g hg t ht
    rw [List.mem_singleton.mp hg] at ht ⊢
    cases hafter.symm.trans ht
    exact ⟨⟨_, htoc, by decide⟩, ⟨_, hnav, by decide⟩⟩
  obtain ⟨again, hagain, hnames, -, -, hsame⟩ := rerun_sameFiles_iff hrun
  exact ⟨fs, path, [f], again, hrun, hagain, hnames, (hsame hkept).1 hfound⟩

/-- An open code block hides the table of contents that is put after it, and another one follows. -/
theorem rerun_not_sameFiles :
    ∃ fs path edits again, (run {} fs path).outcome = .ok edits ∧
      (rerun {} fs path).outcome = .ok again ∧
      ¬ (run {} fs path).fileSystem.SameFiles (rerun {} fs path).fileSystem := by
  let path := "a.md".toList
  let fs : FileSystem := ⟨.directory [(path, .file (Text.Utf8.encode "```\n".toList))], []⟩
  have hfirst : (run {} fs path).outcome.isOk := by decide +kernel
  have hsecond : (rerun {} fs path).outcome.isOk := by decide +kernel
  have hbytes : (rerun {} fs path).fileSystem.bytesAt? [path] ≠
      (run {} fs path).fileSystem.bytesAt? [path] := by decide +kernel
  obtain ⟨edits, hedits⟩ := exists_ok_of_isOk hfirst
  obtain ⟨again, hagain⟩ := exists_ok_of_isOk hsecond
  exact ⟨fs, path, edits, again, hedits, hagain, fun h => hbytes (h [path])⟩

end DocTree
