import DocTree.Text.Basic

/-!
# Paths

Paths as texts of components between slashes. Normal form is computed on components: empty and
`.` components vanish and `..` takes back the component before it. A relative path between two
places is the way up from the first to their common part and down to the second.
-/
namespace DocTree.Path

def parts (p : Text) : List Text :=
  Text.splitOn '/' p

def isAbsolute (p : Text) : Bool :=
  p.head? == some '/'

def baseName (p : Text) : Text :=
  (parts p).getLastD []

/-- What stands before the last slash, without the slashes it ends in; slashes alone remain. -/
def dirName (p : Text) : Text :=
  let head := (p.reverse.dropWhile (· != '/')).reverse
  if head.all (· == '/') then head
  else (head.reverse.dropWhile (· == '/')).reverse

/-- A path continued by another; an absolute one starts afresh. -/
def join (p q : Text) : Text :=
  if isAbsolute q then q
  else if p.isEmpty || p.getLast? == some '/' then p ++ q
  else p ++ '/' :: q

/-- Components that name something: neither empty nor `.`. -/
def steps (p : Text) : List Text :=
  (parts p).filter fun c => c != [] && c != ['.']

/-- Takes one step from a place. Above the start of a relative path `..` stays. -/
def walk (absolute : Bool) (place : List Text) (c : Text) : List Text :=
  if c = ['.', '.'] then
    match place.getLast? with
    | none => if absolute then [] else [c]
    | some last => if last = ['.', '.'] then place ++ [c] else place.dropLast
  else place ++ [c]

/-- The slashes a path begins with in normal form: exactly two are kept. -/
def root (p : Text) : Text :=
  match p with
  | '/' :: '/' :: '/' :: _ => ['/']
  | '/' :: '/' :: _ => ['/', '/']
  | '/' :: _ => ['/']
  | _ => []

/-- The normal form; the empty path is the current place. -/
def normal (p : Text) : Text :=
  let place := (steps p).foldl (walk (isAbsolute p)) []
  let text := root p ++ List.intercalate ['/'] place
  if text = [] then ['.'] else text

/-- The components of the place that a path names, seen from a working directory. -/
def place (cwd : List Text) (p : Text) : List Text :=
  (steps p).foldl (walk true) (if isAbsolute p then [] else cwd)

def common : List Text → List Text → Nat
  | a :: s, b :: t => if a = b then common s t + 1 else 0
  | _, _ => 0

def way (start target : List Text) : List Text :=
  let n := common start target
  List.replicate (start.length - n) ['.', '.'] ++ target.drop n

/-- The path of `target` as seen from the directory `start`. -/
def relative (cwd : List Text) (target start : Text) : Text :=
  match way (place cwd start) (place cwd target) with
  | [] => ['.']
  | steps => List.intercalate ['/'] steps

/-- The spelling of a path without `.` components, doubled slashes and a slash at the end. -/
def plain (p : Text) : Text :=
  let text := root p ++ List.intercalate ['/'] (steps p)
  if text = [] then ['.'] else text

end DocTree.Path
