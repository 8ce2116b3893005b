import DocTree.Load
import DocTree.Plan

/-!
# Runs

A run loads a tree, plans the edits of its documents and writes them. Each file is edited in two
steps, a read and a write; a file that cannot be read is left as it is, and the others are written
all the same.
-/
namespace DocTree

inductive Failure where
  | fault (f : Fault)
  | link (f : LinkFault)
  deriving DecidableEq, Repr

def Failure.message : Failure → Text
  | .fault f => f.message
  | .link f => f.message.toList

namespace FileSystem

def edit (fs : FileSystem) (e : FileEdit) : Except Fault FileSystem := do
  let contents ← fs.readText e.filename
  fs.writeText e.filename (contents.edited e.edits)

/-- As `edit`, for blocks that are wide texts. A fault may come after the file is emptied. -/
def editWide (fs : FileSystem) (filename : Text) (edits : List (Edit CodePoint)) :
    FileSystem × Option Fault :=
  match fs.readText filename with
  | .ok contents => fs.writeWide filename (contents.editedWide edits)
  | .error fault => (fs, some fault)

/-- Edits files one after another: what comes of them, and the first fault. -/
def editAll (fs : FileSystem) : List FileEdit → FileSystem × Option Fault
  | [] => (fs, none)
  | e :: rest =>
    match fs.edit e with
    | .ok fs => fs.editAll rest
    | .error fault => ((fs.editAll rest).1, some fault)

end FileSystem

structure Run where
  records : List Record
  fileSystem : FileSystem
  outcome : Except Failure (List FileEdit)

namespace Run

def blockRecord (filename : Text) (m : Marker) (e : Edit) : Record :=
  ⟨.debug, "indexing", m ++ " block of ".toList ++ filename ++ " at lines ".toList ++
    Text.ofNat e.span.start ++ '-' :: ((e.span.stop.map Text.ofNat).getD "None".toList)⟩

def planRecords (path : Text) (edits : List FileEdit) : List Record :=
  (edits.flatMap fun f => List.zipWith (blockRecord f.filename) [Marker.toc, Marker.nav] f.edits) ++
    [⟨.debug, "pipeline", "Computed mutations for ".toList ++ Text.ofNat edits.length ++
      " files under ".toList ++ path⟩]

def wroteRecord (f : FileEdit) : Record :=
  ⟨.debug, "mutate", "Wrote ".toList ++ f.filename⟩

end Run

/-- The edits of all that a path leads to; nothing is written. -/
def plan (s : Settings) (fs : FileSystem) (path : Text) : Except Failure (List FileEdit) :=
  match (load s fs path).outcome with
  | .error fault => .error (.fault fault)
  | .ok tree =>
    match Plan.ofEntry { s with workingDirectory := fs.workingDirectory } tree {} with
    | .error fault => .error (.link fault)
    | .ok edits => .ok edits

def run (s : Settings) (fs : FileSystem) (path : Text) : Run :=
  let loaded := (load s fs path).records
  match plan s fs path with
  | .error failure => ⟨loaded, fs, .error failure⟩
  | .ok edits =>
    let planned := loaded ++ Run.planRecords path edits
    match fs.editAll edits with
    | (fs, some fault) => ⟨planned, fs, .error (.fault fault)⟩
    | (fs, none) => ⟨planned ++ edits.map Run.wroteRecord, fs, .ok edits⟩

end DocTree
