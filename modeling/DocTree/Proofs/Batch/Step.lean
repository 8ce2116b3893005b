import DocTree.Batch
import DocTree.Proofs.FileSystem.Overwrite

/-!
# The steps of a batch

What one step of a batch can do, and what stays true of a batch whatever steps it takes: it carries
out the edits that it was started with, changes nothing but what texts say, and has met the faults
of those edits that ended without having read their file. A write does not fail where a read did
not.
-/
namespace DocTree

def FileSystem.fault? (fs : FileSystem) (e : FileEdit) : Option Fault :=
  match fs.readText e.filename with
  | .ok _ => none
  | .error fault => some fault

theorem FileSystem.fault?_eq_some {fs : FileSystem} {e : FileEdit} {fault : Fault} :
    fs.fault? e = some fault ↔ fs.readText e.filename = .error fault := by
  rw [fault?]
  cases fs.readText e.filename <;> simp

theorem FileSystem.Holds.fault? {fs : FileSystem} {e : FileEdit} {place : List Text} {s : Text}
    (h : fs.Holds e.filename place s) : fs.fault? e = none := by
  rw [FileSystem.fault?, h.readText]

/-- A text is written where one was read. -/
theorem FileSystem.Holds.writeText {fs : FileSystem} {path : Text} {place : List Text} {s : Text}
    (h : fs.Holds path place s) (t : Text) : fs.writeText path t = .ok (fs.written place t) := by
  simp [FileSystem.writeText, writeBytes, h.resolve, h.at?, bind, Except.bind, pure, Except.pure,
    FileSystem.written]

def Task.done (tasks : List Task) : List FileEdit :=
  (tasks.filter fun t => t.stage = .ended).map Task.edit

namespace Task

@[simp] theorem done_append (tasks more : List Task) :
    done (tasks ++ more) = done tasks ++ done more := by
  simp [done]

@[simp] theorem done_ended (e : FileEdit) (tasks : List Task) :
    done (⟨e, .ended⟩ :: tasks) = e :: done tasks := by
  simp [done]

@[simp] theorem done_waiting (e : FileEdit) (tasks : List Task) :
    done (⟨e, .waiting⟩ :: tasks) = done tasks := by
  simp [done]

@[simp] theorem done_holding (e : FileEdit) (s : Text) (tasks : List Task) :
    done (⟨e, .holding s⟩ :: tasks) = done tasks := by
  simp [done]

theorem done_subset (tasks : List Task) : done tasks ⊆ tasks.map Task.edit :=
  List.map_subset _ (List.filter_subset_self _)

theorem mem_done {e : FileEdit} {tasks : List Task} (h : e ∈ done tasks) : ⟨e, .ended⟩ ∈ tasks := by
  obtain ⟨t, ht, rfl⟩ := List.mem_map.mp h
  obtain ⟨ht, hstage⟩ := List.mem_filter.mp ht
  obtain ⟨edit, stage⟩ := t
  have hended : stage = .ended := by simpa using hstage
  subst hended
  exact ht

end Task

namespace Batch

theorem done_of_isFinished {b : Batch} (h : b.IsFinished) : Task.done b.tasks = b.tasks.map Task.edit := by
  rw [Task.done, List.filter_eq_self.mpr fun t ht => by simpa using h t ht]

/-- What one step can do: nothing, as there is nothing to do; read a file, or fail to; write one, or
fail to. -/
inductive Step : Batch → Batch → Prop
  | idle (b : Batch) : Step b b
  | read {fs : FileSystem} {e : FileEdit} {s : Text} (before after : List Task) (faults : List Fault)
      (h : fs.readText e.filename = .ok s) :
      Step ⟨fs, before ++ ⟨e, .waiting⟩ :: after, faults⟩
        ⟨fs, before ++ ⟨e, .holding s⟩ :: after, faults⟩
  | refuse {fs : FileSystem} {e : FileEdit} {fault : Fault} (before after : List Task)
      (faults : List Fault) (h : fs.readText e.filename = .error fault) :
      Step ⟨fs, before ++ ⟨e, .waiting⟩ :: after, faults⟩
        ⟨fs, before ++ ⟨e, .ended⟩ :: after, faults ++ [fault]⟩
  | write {fs fs' : FileSystem} {e : FileEdit} {s : Text} (before after : List Task)
      (faults : List Fault) (h : fs.writeText e.filename (s.edited e.edits) = .ok fs') :
      Step ⟨fs, before ++ ⟨e, .holding s⟩ :: after, faults⟩
        ⟨fs', before ++ ⟨e, .ended⟩ :: after, faults⟩
  | fail {fs : FileSystem} {e : FileEdit} {s : Text} {fault : Fault} (before after : List Task)
      (faults : List Fault) (h : fs.writeText e.filename (s.edited e.edits) = .error fault) :
      Step ⟨fs, before ++ ⟨e, .holding s⟩ :: after, faults⟩
        ⟨fs, before ++ ⟨e, .ended⟩ :: after, faults ++ [fault]⟩

theorem advance_middle (fs : FileSystem) (before : List Task) (t : Task) (after : List Task)
    (faults : List Fault) :
    advance ⟨fs, before ++ t :: after, faults⟩ before.length =
      match t.step fs with
      | .ok (fs, stage) => ⟨fs, before ++ { t with stage } :: after, faults⟩
      | .error fault => ⟨fs, before ++ { t with stage := .ended } :: after, faults ++ [fault]⟩ := by
  cases h : t.step fs <;> simp [advance, h]

theorem step_advance (b : Batch) (i : Nat) : Step b (b.advance i) := by
  obtain ⟨fs, tasks, faults⟩ := b
  by_cases hi : i < tasks.length
  · obtain ⟨before, t, after, rfl, rfl⟩ := exists_split tasks hi
    obtain ⟨e, stage⟩ := t
    rw [advance_middle, Task.step]
    cases stage with
    | waiting =>
      dsimp only
      cases h : fs.readText e.filename with
      | ok s => exact .read before after faults h
      | error fault => exact .refuse before after faults h
    | holding s =>
      dsimp only
      cases h : fs.writeText e.filename (s.edited e.edits) with
      | ok fs' => exact .write before after faults h
      | error fault => exact .fail before after faults h
    | ended => exact .idle _
  · rw [advance, List.getElem?_eq_none (Nat.le_of_not_lt hi)]
    exact .idle _

/-- A task that holds a text held it before the step, or has read it just now. -/
theorem Step.holding {b b' : Batch} (h : Step b b') {e : FileEdit} {s : Text}
    (hmem : ⟨e, .holding s⟩ ∈ b'.tasks) :
    ⟨e, .holding s⟩ ∈ b.tasks ∨
      (∃ before after, b.tasks = before ++ ⟨e, .waiting⟩ :: after) ∧
        b.fileSystem.readText e.filename = .ok s := by
  cases h with
  | idle => exact .inl hmem
  | @read now e' s' before after faults hread =>
    obtain hmem | hmem := List.mem_append.mp hmem
    · exact .inl (List.mem_append_left _ hmem)
    obtain heq | hmem := List.mem_cons.mp hmem
    · cases heq
      exact .inr ⟨⟨before, after, rfl⟩, hread⟩
    · exact .inl (List.mem_append_right _ (List.mem_cons_of_mem _ hmem))
  | refuse => exact .inl (by simpa using hmem)
  | write => exact .inl (by simp at hmem ⊢; tauto)
  | fail => exact .inl (by simp at hmem ⊢; tauto)

/-- A batch that was started with some edits in a file system and has taken some steps. -/
structure Underway (fs : FileSystem) (edits : List FileEdit) (b : Batch) : Prop where
  edits : b.tasks.map Task.edit = edits
  alike : fs.Alike b.fileSystem
  readable : ∀ e s, ⟨e, .holding s⟩ ∈ b.tasks → ∃ place text, fs.Holds e.filename place text
  faults : b.faults.Perm ((Task.done b.tasks).filterMap fs.fault?)

theorem done_start (fs : FileSystem) (edits : List FileEdit) : Task.done (start fs edits).tasks = [] := by
  simp [Task.done, start, List.filter_map]

theorem underway_start (fs : FileSystem) (edits : List FileEdit) :
    Underway fs edits (start fs edits) where
  edits := by simp [start, Function.comp_def]
  alike := FileSystem.Alike.refl fs
  readable e s h := by simp [start] at h
  faults := by
    rw [done_start]
    exact .refl []

variable {fs : FileSystem} {edits : List FileEdit} {b b' : Batch}

/-- What a task holds was read from a file that can still be read. -/
theorem Underway.holds (h : Underway fs edits b) {e : FileEdit} {s : Text}
    (hmem : ⟨e, .holding s⟩ ∈ b.tasks) : ∃ place t old, fs.Holds e.filename place t ∧
      b.fileSystem.Holds e.filename place old := by
  obtain ⟨place, t, hholds⟩ := h.readable e s hmem
  obtain ⟨old, hold⟩ := hholds.exists_of_alike h.alike
  exact ⟨place, t, old, hholds, hold⟩

/-- Whether a file reads as a text does not change under way, nor how it fails to. -/
theorem Underway.fault? (h : Underway fs edits b) (e : FileEdit) : b.fileSystem.fault? e = fs.fault? e := by
  have hread := h.alike.readText e.filename
  rw [FileSystem.fault?, FileSystem.fault?]
  cases hs : fs.readText e.filename with
  | error fault => rw [eq_error_of_map_eq hread hs]
  | ok s =>
    obtain ⟨s', hs', -⟩ := exists_ok_of_map_eq hread hs
    rw [hs']

/-- A step keeps what can be read. -/
theorem Underway.readable_of_step (h : Underway fs edits b) (hstep : Step b b') (e : FileEdit) (s : Text)
    (hmem : ⟨e, .holding s⟩ ∈ b'.tasks) : ∃ place text, fs.Holds e.filename place text := by
  obtain hmem | ⟨-, hread⟩ := hstep.holding hmem
  · exact h.readable e s hmem
  · obtain ⟨place, hholds⟩ := FileSystem.exists_holds hread
    exact ⟨place, hholds.exists_of_alike h.alike.symm⟩

/-- One step keeps what is true under way. -/
theorem Underway.step (h : Underway fs edits b) (hstep : Step b b') : Underway fs edits b' := by
  have hreadable := h.readable_of_step hstep
  cases hstep with
  | idle => exact h
  | read before after faults hread =>
    exact ⟨by simpa using h.edits, h.alike, hreadable, by simpa using h.faults⟩
  | @refuse now e fault before after faults hread =>
    have hfault : fs.fault? e = some fault := by
      rw [← h.fault? e]
      exact FileSystem.fault?_eq_some.mpr hread
    have hold := h.faults
    have hfaults : (faults ++ [fault]).Perm
        ((Task.done (before ++ ⟨e, .ended⟩ :: after)).filterMap fs.fault?) := by
      simp only [Task.done_append, Task.done_waiting, Task.done_ended, List.filterMap_append,
        List.filterMap_cons, hfault] at hold ⊢
      exact (List.perm_append_singleton fault faults).trans
        ((hold.cons fault).trans List.perm_middle.symm)
    exact ⟨by simpa using h.edits, h.alike, hreadable, hfaults⟩
  | @write now now' e s before after faults hwrite =>
    obtain ⟨place, t, old, hholds, hold⟩ := h.holds (by simp : ⟨e, .holding s⟩ ∈ before ++ _)
    rw [hold.writeText] at hwrite
    cases hwrite
    have halike := h.alike.trans (hold.alike_written (s.edited e.edits))
    exact ⟨by simpa using h.edits, halike, hreadable, by simpa [hholds.fault?] using h.faults⟩
  | @fail now e s fault before after faults hwrite =>
    -- What was read is there, and can be written.
    obtain ⟨place, t, old, -, hold⟩ := h.holds (by simp : ⟨e, .holding s⟩ ∈ before ++ _)
    rw [hold.writeText] at hwrite
    cases hwrite

/-- Whatever steps a batch takes, it is under way. -/
theorem underway_follow (fs : FileSystem) (edits : List FileEdit) (schedule : List Nat) :
    Underway fs edits ((start fs edits).follow schedule) := by
  have hrun : ∀ b, Underway fs edits b → Underway fs edits (b.follow schedule) := by
    induction schedule with
    | nil => exact fun b h => h
    | cons i schedule ih => exact fun b h => ih _ (h.step (step_advance b i))
  exact hrun _ (underway_start fs edits)

def left (b : Batch) (i : Nat) : Nat :=
  ((b.tasks[i]?).map fun t => t.stage.left).getD 0

theorem isFinished_iff : b.IsFinished ↔ ∀ i, b.left i = 0 := by
  constructor
  · intro h i
    cases ht : b.tasks[i]? with
    | none => simp [left, ht]
    | some t => simp [left, ht, h t (List.mem_of_getElem? ht)]
  · intro h t ht
    obtain ⟨i, hi⟩ := List.mem_iff_getElem?.mp ht
    simpa [left, hi] using h i

theorem tasks_advance_other {i j : Nat} (hne : i ≠ j) : (b.advance i).tasks[j]? = b.tasks[j]? := by
  rw [advance]
  cases b.tasks[i]? with
  | none => rfl
  | some t =>
    dsimp only
    cases t.step b.fileSystem <;> exact List.getElem?_set_ne hne

theorem tasks_follow_other {schedule : List Nat} {j : Nat} (hj : j ∉ schedule) :
    (b.follow schedule).tasks[j]? = b.tasks[j]? := by
  induction schedule generalizing b with
  | nil => rfl
  | cons i schedule ih =>
    obtain ⟨hne, hrest⟩ := not_or.mp (mt List.mem_cons.mpr hj)
    rw [follow_cons, ih hrest, tasks_advance_other (Ne.symm hne)]

/-- A task that steps has less before it. -/
theorem left_advance_self (b : Batch) (i : Nat) : (b.advance i).left i ≤ b.left i - 1 := by
  cases ht : b.tasks[i]? with
  | none => simp [left, advance, ht]
  | some t =>
    obtain ⟨hi, -⟩ := List.getElem?_eq_some_iff.mp ht
    have hleft : b.left i = t.stage.left := by simp [left, ht]
    rw [hleft, advance, ht]
    dsimp only
    cases hstep : t.step b.fileSystem with
    | error fault => simp [left, hi, Stage.left]
    | ok moved =>
      obtain ⟨fs', stage⟩ := moved
      have hstage : stage.left ≤ t.stage.left - 1 := by
        rw [Task.step] at hstep
        cases hs : t.stage with
        | waiting =>
          rw [hs] at hstep
          obtain ⟨s, -, heq⟩ := map_eq_ok.mp hstep
          cases heq
          simp [Stage.left]
        | holding s =>
          rw [hs] at hstep
          obtain ⟨fs'', -, heq⟩ := map_eq_ok.mp hstep
          cases heq
          simp [Stage.left]
        | ended =>
          rw [hs] at hstep
          cases hstep
          simp [Stage.left]
      simpa [left, hi] using hstage

theorem left_follow (b : Batch) (schedule : List Nat) (i : Nat) :
    (b.follow schedule).left i ≤ b.left i - schedule.count i := by
  induction schedule generalizing b with
  | nil => simp
  | cons j schedule ih =>
    rw [follow_cons]
    have hrest := ih (b.advance j)
    by_cases hji : j = i
    · subst hji
      have hself := left_advance_self b j
      rw [List.count_cons_self]
      omega
    · have hother : (b.advance j).left i = b.left i := by
        rw [left, tasks_advance_other hji, left]
      rw [hother] at hrest
      rwa [List.count_cons_of_ne hji]

/-- A schedule that gives each task two turns brings the batch to its end. -/
theorem isFinished_follow {schedule : List Nat}
    (h : ∀ i < edits.length, 2 ≤ schedule.count i) :
    ((start fs edits).follow schedule).IsFinished := by
  rw [isFinished_iff]
  intro i
  have hleft := left_follow (start fs edits) schedule i
  by_cases hi : i < edits.length
  · have htwo : (start fs edits).left i = 2 := by simp [left, start, hi, Stage.left]
    have hcount := h i hi
    omega
  · have hnone : (start fs edits).left i = 0 := by simp [left, start, hi]
    omega

def inTurn (first : Nat) : Nat → List Nat
  | 0 => []
  | n + 1 => first :: first :: inTurn (first + 1) n

theorem count_inTurn {first n i : Nat} (hfirst : first ≤ i) (hi : i < first + n) :
    2 ≤ (inTurn first n).count i := by
  induction n generalizing first with
  | zero => omega
  | succ n ih =>
    rw [inTurn]
    by_cases heq : first = i
    · simp [heq]
    · rw [List.count_cons_of_ne heq, List.count_cons_of_ne heq]
      exact ih (by omega) (by omega)

/-- Tasks that go one after another edit their files one after another. -/
theorem follow_inTurn (fs : FileSystem) (before : List Task) (edits : List FileEdit)
    (faults : List Fault) :
    (follow ⟨fs, before ++ edits.map (Task.mk · .waiting), faults⟩
      (inTurn before.length edits.length)).fileSystem = (fs.editAll edits).1 := by
  induction edits generalizing fs before faults with
  | nil => rfl
  | cons e rest ih =>
    have hnext : ∀ fs faults,
        (follow ⟨fs, before ++ ⟨e, .ended⟩ :: rest.map (Task.mk · .waiting), faults⟩
          (inTurn (before.length + 1) rest.length)).fileSystem = (fs.editAll rest).1 := by
      intro fs faults
      have hrest := ih fs (before ++ [⟨e, .ended⟩]) faults
      rwa [List.append_assoc, List.length_append] at hrest
    rw [List.length_cons, inTurn, follow_cons, follow_cons, List.map_cons, advance_middle, Task.step,
      FileSystem.editAll, FileSystem.edit]
    dsimp only
    cases hread : fs.readText e.filename with
    | error fault =>
      dsimp only [Except.map]
      rw [advance_middle]
      exact hnext fs _
    | ok s =>
      dsimp only [Except.map]
      rw [advance_middle, Task.step]
      dsimp only [bind, Except.bind]
      cases fs.writeText e.filename (s.edited e.edits) with
      | error fault => exact hnext fs _
      | ok fs' => exact hnext fs' _

end Batch

end DocTree
