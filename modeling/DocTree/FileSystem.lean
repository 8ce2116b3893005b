import DocTree.Path
import DocTree.Text.Quoted
import DocTree.Text.Utf8

/-!
# File systems

A tree of directories, files and symbolic links, as a value. Paths are followed from the working
directory step by step; links are followed wherever they stand, up to a number of them. A read or
a write of one file is one step.
-/
namespace DocTree

/-- What a directory holds. Of entries with one name the first counts. -/
inductive Node where
  | file (bytes : List UInt8)
  | directory (entries : List (Text × Node))
  | link (target : Text)
  deriving Repr

inductive Cause where
  | missing
  | exists
  | notDirectory
  | isDirectory
  | nameTooLong
  | tooManyLinks
  deriving DecidableEq, Repr

def Cause.number : Cause → Nat
  | .missing => 2
  | .exists => 17
  | .notDirectory => 20
  | .isDirectory => 21
  | .nameTooLong => 36
  | .tooManyLinks => 40

def Cause.message : Cause → String
  | .missing => "No such file or directory"
  | .exists => "File exists"
  | .notDirectory => "Not a directory"
  | .isDirectory => "Is a directory"
  | .nameTooLong => "File name too long"
  | .tooManyLinks => "Too many levels of symbolic links"

inductive Fault where
  | access (cause : Cause) (path : Text)
  | nullCharacter
  | undecodable (fault : Text.Utf8.Fault)
  | unencodable (fault : Text.Utf8.WideFault)
  deriving DecidableEq, Repr

def Fault.message : Fault → Text
  | .access cause path =>
    "[Errno ".toList ++ Text.ofNat cause.number ++ "] ".toList ++ cause.message.toList ++
      ": ".toList ++ Text.quoted path
  | .nullCharacter => "embedded null byte".toList
  | .undecodable fault => fault.message
  | .unencodable fault => fault.message

namespace Node

def child? (name : Text) : Node → Option Node
  | directory entries => entries.lookup name
  | _ => none

def at? : List Text → Node → Option Node
  | [], n => some n
  | name :: rest, n => (n.child? name).bind (at? rest)

def isDirectory : Node → Bool
  | directory _ => true
  | _ => false

def putEntry (name : Text) (new : Node) : List (Text × Node) → List (Text × Node)
  | [] => [(name, new)]
  | (key, n) :: rest =>
    if key = name then (name, new) :: rest else (key, n) :: putEntry name new rest

/-- Puts a node at a place whose directory exists. -/
def put (new : Node) : List Text → Node → Node
  | [], _ => new
  | name :: rest, directory entries =>
    match entries.lookup name with
    | some child => directory (putEntry name (put new rest child) entries)
    | none => if rest.isEmpty then directory (putEntry name new entries) else directory entries
  | _ :: _, n => n

end Node

/-- A file system: what the root directory holds, and the place of the working directory. -/
structure FileSystem where
  root : Node
  workingDirectory : List Text := []
  deriving Repr

namespace FileSystem

/-- The steps of a path. A slash at the end asks for a directory. -/
def steps (path : Text) : List Text :=
  (Path.parts path).filter (!·.isEmpty) ++
    if path.getLast? = some '/' then [['.']] else []

/-- Follows steps from a place. The last step may lead to what does not exist. `follow` goes on
behind a link. -/
def walk (root : Node) (follow : List Text → List Text → Except Cause (List Text)) :
    List Text → List Text → Except Cause (List Text)
  | place, [] => .ok place
  | place, s :: rest =>
    match Node.at? place root with
    | some (.directory entries) =>
      if s = ['.'] then walk root follow place rest
      else if s = ['.', '.'] then walk root follow place.dropLast rest
      else if 255 < (Text.Utf8.encode s).length then .error .nameTooLong
      else
        match entries.lookup s with
        | none => if rest.isEmpty then .ok (place ++ [s]) else .error .missing
        | some (.link target) =>
          follow (if Path.isAbsolute target then [] else place) (steps target ++ rest)
        | some _ => walk root follow (place ++ [s]) rest
    | some _ => .error .notDirectory
    | none => .error .missing

/-- Follows steps through at most so many links. -/
def walkThrough (root : Node) : Nat → List Text → List Text → Except Cause (List Text)
  | 0 => walk root fun _ _ => .error .tooManyLinks
  | links + 1 => walk root (walkThrough root links)

def maxLinks : Nat := 40

def maxPath : Nat := 4096

def resolve (fs : FileSystem) (path : Text) : Except Fault (List Text) :=
  let fail (cause : Cause) := Except.error (Fault.access cause path)
  if path.isEmpty then fail .missing
  else if path.contains (Char.ofNat 0) then .error .nullCharacter
  else if maxPath ≤ (Text.Utf8.encode path).length then fail .nameTooLong
  else
    let start := if Path.isAbsolute path then [] else fs.workingDirectory
    match walkThrough fs.root maxLinks start (steps path) with
    | .ok place => .ok place
    | .error cause => fail cause

def find (fs : FileSystem) (path : Text) : Except Fault Node := do
  let place ← fs.resolve path
  match Node.at? place fs.root with
  | some n => return n
  | none => .error (.access .missing path)

/-- Whether a path leads anywhere. Only a missing file is a negative answer. -/
def exists? (fs : FileSystem) (path : Text) : Except Fault Bool :=
  match fs.find path with
  | .ok _ => .ok true
  | .error (.access .missing _) => .ok false
  | .error fault => .error fault

def names (fs : FileSystem) (path : Text) : Except Fault (List Text) := do
  match ← fs.find path with
  | .directory entries => return (entries.map (·.1)).eraseDups
  | _ => .error (.access .notDirectory path)

def readBytes (fs : FileSystem) (path : Text) : Except Fault (List UInt8) := do
  let path := Path.plain path
  match ← fs.find path with
  | .file bytes => return bytes
  | _ => .error (.access .isDirectory path)

/-- The text of a file, line breaks as they are. -/
def readText (fs : FileSystem) (path : Text) : Except Fault Text := do
  match Text.Utf8.decode (← fs.readBytes path) with
  | .ok s => return s
  | .error fault => .error (.undecodable fault)

def writeBytes (fs : FileSystem) (path : Text) (bytes : List UInt8) :
    Except Fault FileSystem := do
  let path := Path.plain path
  let place ← fs.resolve path
  match Node.at? place fs.root with
  | some (.directory _) => .error (.access .isDirectory path)
  | _ => return { fs with root := Node.put (.file bytes) place fs.root }

def writeText (fs : FileSystem) (path : Text) (s : Text) : Except Fault FileSystem :=
  fs.writeBytes path (Text.Utf8.encode s)

/-- Writes a wide text. The file is opened, and so emptied, before the text is encoded: one that
has no encoding leaves it empty. -/
def writeWide (fs : FileSystem) (path : Text) (s : WideText) : FileSystem × Option Fault :=
  match Text.Utf8.encodeWide s with
  | .ok bytes =>
    match fs.writeBytes path bytes with
    | .ok written => (written, none)
    | .error fault => (fs, some fault)
  | .error surrogates =>
    match fs.writeBytes path [] with
    | .ok emptied => (emptied, some (.unencodable surrogates))
    | .error fault => (fs, some fault)

def makeDirectories (fs : FileSystem) : List Text → List Text → FileSystem
  | _, [] => fs
  | place, s :: rest =>
    let here := place ++ [s]
    match Node.at? here fs.root with
    | none => { fs with root := Node.put (.directory []) here fs.root }.makeDirectories here rest
    | some _ => fs.makeDirectories here rest

mutual

def filesOf (place : List Text) : Node → List (List Text × List UInt8)
  | .file bytes => [(place, bytes)]
  | .link _ => []
  | .directory entries => filesOfEntries place entries

def filesOfEntries (place : List Text) : List (Text × Node) → List (List Text × List UInt8)
  | [] => []
  | (name, n) :: rest => filesOf (place ++ [name]) n ++ filesOfEntries place rest

end

/-- The files below the working directory, links apart, each with its path from there. -/
def files (fs : FileSystem) : List (Text × List UInt8) :=
  match Node.at? fs.workingDirectory fs.root with
  | some n => (filesOf [] n).map fun (place, bytes) => (List.intercalate ['/'] place, bytes)
  | none => []

end FileSystem

end DocTree
