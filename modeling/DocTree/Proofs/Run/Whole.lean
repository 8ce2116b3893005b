import DocTree.Proofs.Load.Separate
import DocTree.Proofs.Plan.Named
import DocTree.Proofs.Run.Again

/-!
# All or nothing

Without links a run fails exactly if loading does, and then nothing is written. Otherwise every
file that the plan names is read once more without fail, and holds what its own edits make of what
it held before; everything else is as it was.
-/
namespace DocTree

variable {s : Settings} {fs : FileSystem} {path : Text} {edits : List FileEdit}

/-- Every file that a plan names is read when the tree is loaded. -/
theorem plan_readable (h : plan s fs path = .ok edits) : fs.Readable edits := by
  obtain ⟨e, he, hedits⟩ := plan_eq_ok.mp h
  intro f hf
  obtain ⟨d, hd, toc, nav, rfl⟩ := exists_right_of_forall₂ (Plan.ofEntry_isFor hedits) f hf
  obtain ⟨text, htext, -⟩ := load_documents he d hd
  exact ⟨text, htext⟩

/-- Without links a plan names every file once. -/
theorem plan_separate (hplain : fs.root.isPlain) (hslash : '/' ∉ s.rootDocument)
    (h : plan s fs path = .ok edits) : fs.Separate edits := by
  obtain ⟨e, he, hedits⟩ := plan_eq_ok.mp h
  have hlanding : (e.documents.map Document.filename).Pairwise fun a b =>
      fs.landing a ≠ fs.landing b :=
    List.pairwise_map.mpr (load_landing hplain hslash he)
  rw [← Plan.filename_ofEntry hedits, List.pairwise_map] at hlanding
  refine hlanding.imp_of_mem ?_
  intro f g hf hg hne heq
  obtain ⟨text, htext⟩ := plan_readable h f hf
  obtain ⟨place, hholds⟩ := FileSystem.exists_holds htext
  have hf := FileSystem.eq_landing_of_resolve hplain hholds.resolve
  have hg := FileSystem.eq_landing_of_resolve hplain (heq ▸ hholds.resolve)
  rw [FileSystem.landing_plain] at hf hg
  exact hne (hf.symm.trans hg)

/-- A file that other files were edited before still reads as it did. -/
theorem FileSystem.Separate.readText_editAll (hsep : fs.Separate edits) {before after : List FileEdit}
    {f : FileEdit} (hedits : edits = before ++ f :: after) {text : Text}
    (htext : fs.readText f.filename = .ok text) :
    (fs.editAll before).1.readText f.filename = .ok text := by
  obtain ⟨place, hholds⟩ := exists_holds htext
  have halike := alike_editAll fs before
  subst hedits
  have hother : ∀ g ∈ before, ¬ fs.LeadsTo g.filename place := by
    intro g hg hlead
    exact (List.pairwise_append.mp hsep).2.2 g hg f (by simp) (hlead.trans hholds.leadsTo.symm)
  have hat : Node.at? place (fs.editAll before).1.root = _ := at?_editAll hholds.at?
  rw [textAfter_eq_self hother] at hat
  exact Holds.readText ⟨(halike.leadsTo f.filename place).mpr hholds.leadsTo, hat⟩

/-- Without links a run fails exactly if loading does, and then it leaves everything as it is. If
loading succeeds there is a plan, which names no file twice; each file under edit still reads as it
did when its turn comes, and ends up as what its edits make of it. Nothing else changes, and nothing
is created or removed. -/
theorem run_all_or_nothing (hplain : fs.root.isPlain) (hslash : '/' ∉ s.rootDocument)
    (path : Text) :
    ((∃ failure, (run s fs path).outcome = .error failure) ↔
      ∃ fault, (load s fs path).outcome = .error fault) ∧
    (∀ fault, (load s fs path).outcome = .error fault →
      (run s fs path).outcome = .error (.fault fault) ∧ (run s fs path).fileSystem = fs) ∧
    ∀ tree, (load s fs path).outcome = .ok tree →
      ∃ edits, Plan.ofEntry { s with workingDirectory := fs.workingDirectory } tree {} = .ok edits ∧
        (run s fs path).outcome = .ok edits ∧
        fs.Separate edits ∧
        fs.Alike (run s fs path).fileSystem ∧
        (∀ before f after, edits = before ++ f :: after → ∃ place text,
          fs.Holds f.filename place text ∧
          (fs.editAll before).1.readText f.filename = .ok text ∧
          (run s fs path).fileSystem.Holds f.filename place (text.edited f.edits)) ∧
        ∀ place, (∀ f ∈ edits, ¬ fs.LeadsTo f.filename place) →
          (run s fs path).fileSystem.bytesAt? place = fs.bytesAt? place := by
  have hfails : ∀ fault, (load s fs path).outcome = .error fault →
      (run s fs path).outcome = .error (.fault fault) ∧ (run s fs path).fileSystem = fs := by
    intro fault hfault
    have hplan : plan s fs path = .error (.fault fault) := by rw [plan, hfault]
    rw [run, hplan]
    exact ⟨rfl, rfl⟩
  have hsucceeds : ∀ tree, (load s fs path).outcome = .ok tree →
      ∃ edits, Plan.ofEntry { s with workingDirectory := fs.workingDirectory } tree {} = .ok edits ∧
        plan s fs path = .ok edits ∧ (run s fs path).outcome = .ok edits := by
    intro tree htree
    obtain ⟨edits, hedits, hplan⟩ := exists_plan htree
    exact ⟨edits, hedits, hplan, run_eq_ok.mpr ⟨hplan, (plan_readable hplan).editAll⟩⟩
  refine ⟨?_, hfails, ?_⟩
  · constructor
    · rintro ⟨failure, hfailure⟩
      cases hload : (load s fs path).outcome with
      | error fault => exact ⟨fault, rfl⟩
      | ok tree =>
        obtain ⟨edits, -, -, hrun⟩ := hsucceeds tree hload
        rw [hrun] at hfailure
        cases hfailure
    · rintro ⟨fault, hfault⟩
      exact ⟨_, (hfails fault hfault).1⟩
  · intro tree htree
    obtain ⟨edits, hedits, hplan, hrun⟩ := hsucceeds tree htree
    have hsep := plan_separate hplain hslash hplan
    have halike := FileSystem.alike_editAll fs edits
    refine ⟨edits, hedits, hrun, hsep, ?_⟩
    rw [(run_of_plan hplan).1]
    refine ⟨halike, ?_, ?_⟩
    · intro before f after hsplit
      have hf : f ∈ edits := by simp [hsplit]
      obtain ⟨text, htext⟩ := plan_readable hplan f hf
      obtain ⟨place, hholds⟩ := FileSystem.exists_holds htext
      have hat : Node.at? place (fs.editAll edits).1.root = _ :=
        FileSystem.at?_editAll hholds.at?
      rw [hsep.textAfter_eq hf hholds.leadsTo text] at hat
      exact ⟨place, text, hholds, hsep.readText_editAll hsplit htext,
        (halike.leadsTo f.filename place).mpr hholds.leadsTo, hat⟩
    · intro place hnone
      exact FileSystem.bytesAt?_editAll fun s _ => FileSystem.textAfter_eq_self hnone s

/-- A directory with its own document, a document and a directory below it. -/
theorem run_all_or_nothing_directory :
    ∃ fs edits, (run {} fs ".".toList).outcome = .ok edits ∧ fs.Separate edits ∧
      edits.map FileEdit.filename =
        ["./a.md".toList, "./b/c.md".toList, "./README.md".toList] := by
  let fs : FileSystem := ⟨.directory [
    ("README.md".toList, .file (Text.Utf8.encode "# Top\n".toList)),
    ("b".toList, .directory [("c.md".toList, .file (Text.Utf8.encode "## Part\n".toList))]),
    ("a.md".toList, .file (Text.Utf8.encode "x".toList))], []⟩
  have hall := run_all_or_nothing (s := {}) (by decide : fs.root.isPlain) (by decide) ".".toList
  have hload : (load {} fs ".".toList).outcome.isOk := by decide +kernel
  obtain ⟨tree, htree⟩ := exists_ok_of_isOk hload
  obtain ⟨edits, -, hrun, hsep, -⟩ := hall.2.2 tree htree
  have hnames : ((run {} fs ".".toList).outcome.toOption.map (List.map FileEdit.filename)) =
      some ["./a.md".toList, "./b/c.md".toList, "./README.md".toList] := by decide +kernel
  rw [hrun] at hnames
  exact ⟨fs, edits, hrun, hsep, Option.some.inj hnames⟩

end DocTree
