import DocTree.Proofs.Batch.Settle
import DocTree.Proofs.Run.Whole

/-!
# Races

A task that reads before all others and writes after them decides what its text becomes, and a task
that takes both turns at the end adds its own edits to that. So if two edits lead to one text and do
not agree, schedules come to different ends. A run has one outcome for all schedules exactly if the
edits of its plan agree. Without links they do; a link may lead to a file that is in the plan under
its own name too.
-/
namespace DocTree

namespace Batch

open FileSystem

section

variable {fs fs' : FileSystem} {edits : List FileEdit} {b : Batch} {e f : FileEdit} {i j : Nat}
  {place : List Text} {s old : Text} {schedule : List Nat}

theorem advance_waiting (hi : b.tasks[i]? = some ⟨e, .waiting⟩)
    (h : b.fileSystem.Holds e.filename place s) :
    b.advance i = { b with tasks := b.tasks.set i ⟨e, .holding s⟩ } := by
  simp [advance, hi, Task.step, h.readText, Except.map]

theorem advance_holding (hi : b.tasks[i]? = some ⟨e, .holding s⟩)
    (h : b.fileSystem.Holds e.filename place old) :
    b.advance i = { b with
      fileSystem := b.fileSystem.written place (s.edited e.edits)
      tasks := b.tasks.set i ⟨e, .ended⟩ } := by
  simp [advance, hi, Task.step, h.writeText, Except.map]

/-- A task that has had no turn yet waits. -/
theorem waiting_follow (hi : edits[i]? = some e) (hturn : i ∉ schedule) :
    ((start fs edits).follow schedule).tasks[i]? = some ⟨e, .waiting⟩ := by
  rw [tasks_follow_other hturn]
  simp [start, hi]

/-- Whatever the others do between its turns, a task makes its edits of the text that it read. -/
theorem holds_read_write (schedule : List Nat) {mid : List Nat} (hi : edits[i]? = some e)
    (hfirst : i ∉ schedule)
    (h : ((start fs edits).follow schedule).fileSystem.Holds e.filename place s) (hmid : i ∉ mid) :
    ((start fs edits).follow (schedule ++ i :: mid ++ [i])).fileSystem.Holds e.filename place
      (s.edited e.edits) := by
  have hwaiting : ((start fs edits).follow schedule).tasks[i]? = some ⟨e, .waiting⟩ :=
    waiting_follow hi hfirst
  have hread := advance_waiting hwaiting h
  have hholding : ((start fs edits).follow (schedule ++ i :: mid)).tasks[i]? = some ⟨e, .holding s⟩ := by
    obtain ⟨hlt, -⟩ := List.getElem?_eq_some_iff.mp hwaiting
    rw [follow_append, follow_cons, tasks_follow_other hmid, hread, List.getElem?_set_self hlt]
  have halike : ((start fs edits).follow schedule).fileSystem.Alike
      ((start fs edits).follow (schedule ++ i :: mid)).fileSystem :=
    (underway_follow fs edits schedule).alike.symm.trans
      (underway_follow fs edits (schedule ++ i :: mid)).alike
  obtain ⟨old, hold⟩ := h.exists_of_alike halike
  rw [follow_append _ (schedule ++ i :: mid), follow_cons, follow_nil, advance_holding hholding hold]
  exact hold.written _

def others (n : Nat) (out : List Nat) : List Nat :=
  (inTurn 0 n).filter (· ∉ out)

theorem not_mem_others {n : Nat} {out : List Nat} (hi : i ∈ out) : i ∉ others n out := by
  simp [others, hi]

theorem count_others {n : Nat} {out : List Nat} (hn : i < n) (hi : i ∉ out) :
    2 ≤ (others n out).count i := by
  rw [others, List.count_filter (by simpa using hi)]
  exact count_inTurn (Nat.zero_le i) (by omega)

/-- All schedules that come to an end come to one file system. -/
def ComesTo (fs : FileSystem) (edits : List FileEdit) (fs' : FileSystem) : Prop :=
  ∀ schedule, ((start fs edits).follow schedule).IsFinished →
    ((start fs edits).follow schedule).fileSystem = fs'

/-- One task reads before all others and writes after them. -/
theorem ComesTo.holds_one (h : ComesTo fs edits fs') (hi : edits[i]? = some e)
    (he : fs.Holds e.filename place s) : fs'.Holds e.filename place (s.edited e.edits) := by
  have hout : i ∉ others edits.length [i] := not_mem_others (by simp)
  rw [← h (i :: others edits.length [i] ++ [i])]
  · exact holds_read_write [] hi (by simp) he hout
  · apply isFinished_follow
    intro k hk
    by_cases hki : k = i
    · simp [hki]
    · have hcount : 2 ≤ (others edits.length [i]).count k := count_others hk (by simpa using hki)
      rw [List.count_append, List.count_cons]
      omega

/-- One task reads before all others, and all but one have ended when it writes. -/
theorem ComesTo.holds_two (h : ComesTo fs edits fs') (hi : edits[i]? = some e)
    (hj : edits[j]? = some f) (hne : i ≠ j) (he : fs.Holds e.filename place s)
    (hf : fs.Holds f.filename place s) :
    fs'.Holds f.filename place ((s.edited e.edits).edited f.edits) := by
  have houti : i ∉ others edits.length [i, j] := not_mem_others (by simp)
  have houtj : j ∉ i :: others edits.length [i, j] ++ [i] := by
    have hout : j ∉ others edits.length [i, j] := not_mem_others (by simp)
    simp [hout, Ne.symm hne]
  rw [← h (i :: others edits.length [i, j] ++ [i] ++ j :: [] ++ [j])]
  · have hfirst := holds_read_write [] hi (by simp) he houti
    have halike := (underway_follow fs edits (i :: others edits.length [i, j] ++ [i])).alike
    exact holds_read_write _ hj houtj ⟨(halike.leadsTo _ place).mpr hf.leadsTo, hfirst.at?⟩ (by simp)
  · apply isFinished_follow
    intro k hk
    by_cases hki : k = i
    · subst hki
      simp only [List.count_append, List.count_cons_self]
      omega
    by_cases hkj : k = j
    · subst hkj
      simp only [List.count_append, List.count_cons_self]
      omega
    · have hcount : 2 ≤ (others edits.length [i, j]).count k :=
        count_others hk (by simp [hki, hkj])
      simp only [List.count_append, List.count_cons]
      omega

/-- Edits that come to one end agree. -/
theorem ComesTo.agree (h : ComesTo fs edits fs') : fs.Agree edits := by
  rw [Agree, List.pairwise_iff_getElem]
  intro i j hi hj hlt place s he hf
  have hi := List.getElem?_eq_getElem hi
  have hj := List.getElem?_eq_getElem hj
  have heither := (h.holds_one hi he).text_eq (h.holds_one hj hf)
  have hthen := (h.holds_two hi hj (Nat.ne_of_lt hlt) he hf).text_eq (h.holds_one hi he)
  have hback := (h.holds_two hj hi (Nat.ne_of_gt hlt) hf he).text_eq (h.holds_one hj hf)
  exact ⟨heither, hthen, hback⟩

/-- Edits agree exactly if all schedules come to one end. -/
theorem exists_comesTo_iff : (∃ fs', ComesTo fs edits fs') ↔ fs.Agree edits := by
  constructor
  · rintro ⟨fs', h⟩
    exact h.agree
  · intro hagree
    exact ⟨_, fun schedule hfinished => fileSystem_follow hagree hfinished⟩

/-- Files that can be read are edited without fail, whatever the schedule. -/
theorem faults_follow (h : fs.Readable edits) (schedule : List Nat) :
    ((start fs edits).follow schedule).faults = [] := by
  have hunder := underway_follow fs edits schedule
  have hnone : (Task.done ((start fs edits).follow schedule).tasks).filterMap fs.fault? = [] := by
    rw [List.filterMap_eq_nil_iff]
    intro e he
    have hmem := Task.done_subset _ he
    rw [hunder.edits] at hmem
    obtain ⟨s, hs⟩ := h e hmem
    rw [FileSystem.fault?, hs]
  have hfaults := hunder.faults
  rw [hnone] at hfaults
  exact hfaults.eq_nil

end

/-- The edits of a run never fail. All schedules of them come to one file system exactly if any two
of them that lead to one text agree on it, and then it is the one that a run leaves behind that edits
one file after another. Edits agree if no two of them lead to one text, as it is without links. -/
theorem plan_comesTo_iff {s : Settings} {fs : FileSystem} {path : Text} {tree : Entry}
    (h : (load s fs path).outcome = .ok tree) :
    ∃ edits, plan s fs path = .ok edits ∧
      (∀ schedule, ((start fs edits).follow schedule).faults = []) ∧
      ((∃ fs', ComesTo fs edits fs') ↔ fs.Agree edits) ∧
      (fs.Agree edits → ComesTo fs edits (run s fs path).fileSystem) ∧
      (fs.Unshared edits → fs.Agree edits) ∧
      (fs.root.isPlain → '/' ∉ s.rootDocument → fs.Unshared edits) := by
  obtain ⟨edits, -, hplan⟩ := exists_plan h
  refine ⟨edits, hplan, faults_follow (plan_readable hplan), exists_comesTo_iff, ?_, Unshared.agree, ?_⟩
  · intro hagree schedule hfinished
    rw [(run_of_plan hplan).1, fileSystem_editAll hagree, fileSystem_follow hagree hfinished]
  · intro hplain hslash
    exact (plan_separate hplain hslash hplan).unshared

/-- A link that leads to a file outside of the directory. -/
theorem plan_comesTo_linked :
    ∃ fs edits, plan {} fs ".".toList = .ok edits ∧
      edits.map FileEdit.filename = ["./a.md".toList, "./b.md".toList] ∧
      ComesTo fs edits (run {} fs ".".toList).fileSystem := by
  let fs : FileSystem := ⟨.directory [("x.md".toList, .file (Text.Utf8.encode "x\n".toList)),
    ("docs".toList, .directory [("a.md".toList, .file (Text.Utf8.encode "# A\n".toList)),
      ("b.md".toList, .link "../x.md".toList)])], ["docs".toList]⟩
  have hload : (load {} fs ".".toList).outcome.isOk := by decide +kernel
  obtain ⟨tree, htree⟩ := exists_ok_of_isOk hload
  obtain ⟨edits, hplan, -, -, hone, hunshared, -⟩ := plan_comesTo_iff htree
  have hnames : (plan {} fs ".".toList).toOption.map (List.map FileEdit.filename) =
      some ["./a.md".toList, "./b.md".toList] := by decide +kernel
  rw [hplan] at hnames
  have hnames : edits.map FileEdit.filename = ["./a.md".toList, "./b.md".toList] :=
    Option.some.inj hnames
  have hseparate : fs.Separate edits := by
    have hpairs : (edits.map FileEdit.filename).Pairwise fun a b =>
        fs.resolve (Path.plain a) ≠ fs.resolve (Path.plain b) := by
      rw [hnames]
      decide +kernel
    rwa [List.pairwise_map] at hpairs
  exact ⟨fs, edits, hplan, hnames, hone (hunshared hseparate.unshared)⟩

/-- A file and a link to it are in one plan. Whichever is edited first, the other adds its blocks, and
the text tells the order. -/
theorem plan_not_comesTo :
    let fs : FileSystem := ⟨.directory [("a.md".toList, .file (Text.Utf8.encode "x\n".toList)),
      ("b.md".toList, .link "a.md".toList)], []⟩
    (load {} fs ".".toList).outcome.isOk ∧
      ∃ edits, plan {} fs ".".toList = .ok edits ∧
        ((start fs edits).follow [0, 0, 1, 1]).IsFinished ∧
        ((start fs edits).follow [1, 1, 0, 0]).IsFinished ∧
        ((start fs edits).follow [0, 0, 1, 1]).fileSystem.bytesAt? ["a.md".toList] ≠
          ((start fs edits).follow [1, 1, 0, 0]).fileSystem.bytesAt? ["a.md".toList] := by
  intro fs
  have hload : (load {} fs ".".toList).outcome.isOk := by decide +kernel
  obtain ⟨tree, htree⟩ := exists_ok_of_isOk hload
  obtain ⟨edits, -, hplan⟩ := exists_plan htree
  have hends : ∀ e ∈ (plan {} fs ".".toList).toOption,
      ((start fs e).follow [0, 0, 1, 1]).IsFinished ∧ ((start fs e).follow [1, 1, 0, 0]).IsFinished ∧
      ((start fs e).follow [0, 0, 1, 1]).fileSystem.bytesAt? ["a.md".toList] ≠
        ((start fs e).follow [1, 1, 0, 0]).fileSystem.bytesAt? ["a.md".toList] := by decide +kernel
  exact ⟨hload, edits, hplan, hends edits (by rw [hplan]; rfl)⟩

end Batch

end DocTree
