import DocTree.Run

/-!
# Batches

The files of a plan are edited side by side. Every edit takes two steps: it reads its file, and it
writes back what its changes make of what it read. The steps of different edits come in any order. A
schedule names the edit whose turn it is, so that what a batch comes to is a value for each order.
-/
namespace DocTree

/-- How far the edit of a file has come. -/
inductive Stage where
  | waiting
  | holding (contents : Text)
  | ended
  deriving DecidableEq, Repr

def Stage.left : Stage → Nat
  | .waiting => 2
  | .holding _ => 1
  | .ended => 0

@[simp] theorem Stage.left_eq_zero {stage : Stage} : stage.left = 0 ↔ stage = .ended := by
  cases stage <;> simp [left]

structure Task where
  edit : FileEdit
  stage : Stage := .waiting
  deriving DecidableEq, Repr

/-- The next step of a task: what it leaves of the file system, and how far the task is then. -/
def Task.step (fs : FileSystem) (t : Task) : Except Fault (FileSystem × Stage) :=
  match t.stage with
  | .waiting => (fs.readText t.edit.filename).map fun contents => (fs, .holding contents)
  | .holding contents =>
    (fs.writeText t.edit.filename (contents.edited t.edit.edits)).map fun fs => (fs, .ended)
  | .ended => .ok (fs, .ended)

/-- Edits under way, and the faults that ended some of them, in the order in which they were met.
The first one is what the batch as a whole reports. -/
structure Batch where
  fileSystem : FileSystem
  tasks : List Task
  faults : List Fault := []

namespace Batch

def start (fs : FileSystem) (edits : List FileEdit) : Batch :=
  { fileSystem := fs, tasks := edits.map fun edit => { edit } }

/-- One task takes its next step. A fault ends the task and no other. -/
def advance (b : Batch) (i : Nat) : Batch :=
  match b.tasks[i]? with
  | none => b
  | some t =>
    match t.step b.fileSystem with
    | .ok (fs, stage) => { b with fileSystem := fs, tasks := b.tasks.set i { t with stage } }
    | .error fault =>
      { b with tasks := b.tasks.set i { t with stage := .ended }, faults := b.faults ++ [fault] }

def follow (b : Batch) (schedule : List Nat) : Batch :=
  schedule.foldl advance b

@[simp] theorem follow_nil (b : Batch) : b.follow [] = b := rfl

@[simp] theorem follow_cons (b : Batch) (i : Nat) (schedule : List Nat) :
    b.follow (i :: schedule) = (b.advance i).follow schedule := rfl

@[simp] theorem follow_append (b : Batch) (schedule more : List Nat) :
    b.follow (schedule ++ more) = (b.follow schedule).follow more :=
  List.foldl_append

def IsFinished (b : Batch) : Prop :=
  ∀ t ∈ b.tasks, t.stage = .ended

instance (b : Batch) : Decidable b.IsFinished :=
  inferInstanceAs (Decidable (∀ t ∈ b.tasks, _))

end Batch

end DocTree
