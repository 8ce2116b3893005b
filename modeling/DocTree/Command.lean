import DocTree.Run

/-!
# Command line

What the arguments of a command ask for, and what the command then does: it shows help, complains
of its arguments, or indexes a path and reports on it. Options may be cut short as long as they
stay distinct, short ones may be written together, and after `--` every argument is a word.
-/
namespace DocTree.Command

/-- An option. None takes a value. -/
inductive Flag where
  | help
  | verbose
  deriving DecidableEq, Repr

namespace Flag

def all : List Flag := [help, verbose]

def short : Flag → Char
  | help => 'h'
  | verbose => 'v'

def long : Flag → Text
  | help => "--help".toList
  | verbose => "--verbose".toList

def name (f : Flag) : Text :=
  '-' :: f.short :: '/' :: f.long

def ofShort? (c : Char) : Option Flag :=
  all.find? (·.short == c)

end Flag

inductive Misuse where
  | ambiguous (argument : Text)
  | unusedValue (f : Flag) (value : Text)
  | unrecognized (arguments : List Text)
  deriving DecidableEq, Repr

def Misuse.message : Misuse → Text
  | ambiguous s =>
    "ambiguous option: ".toList ++ s ++ " could match ".toList ++
      List.intercalate ", ".toList (Flag.all.map Flag.long)
  | unusedValue f value =>
    "argument ".toList ++ f.name ++ ": ignored explicit argument ".toList ++ Text.quoted value
  | unrecognized arguments =>
    "unrecognized arguments: ".toList ++ List.intercalate [' '] arguments

/-- One argument as it is understood on its own. -/
inductive Argument where
  | word (s : Text)
  | divider
  | option (f : Flag)
  | long (f : Flag) (value : Text)
  | cluster (f : Flag) (value : Text)
  | unknown (s : Text)
  deriving DecidableEq, Repr

namespace Argument

/-- Whether what follows a minus sign makes it a decimal number. A line feed may end it. -/
def isNumber (s : Text) : Bool :=
  let isDigit (c : Char) := (Text.Integer.digit? c).isSome
  let body := if s.getLast? = some '\n' then s.dropLast else s
  match body.dropWhile isDigit with
  | [] => !body.isEmpty
  | '.' :: rest => !rest.isEmpty && rest.all isDigit
  | _ => false

/-- An argument that looks like an option and is none: text with a blank is a word all the same. -/
def other (s : Text) : Argument :=
  if s.contains ' ' then .word s else .unknown s

def of (s : Text) : Except Misuse Argument :=
  match s with
  | '-' :: '-' :: _ =>
    let name := s.takeWhile (· != '=')
    match Flag.all.filter (name.isPrefixOf ·.long), s.drop name.length with
    | [], _ => .ok (other s)
    | [f], [] => .ok (.option f)
    | [f], _ :: value => .ok (.long f value)
    | _, _ => .error (.ambiguous s)
  | '-' :: c :: rest =>
    match Flag.ofShort? c, rest with
    | some f, [] => .ok (.option f)
    | some f, '=' :: value => .ok (.cluster f value)
    | some f, value => .ok (.cluster f value)
    | none, _ => .ok (if isNumber (c :: rest) then .word s else other s)
  | _ => .ok (.word s)

def ofAll : List Text → Except Misuse (List Argument)
  | [] => .ok []
  | s :: rest =>
    if s = "--".toList then .ok (.divider :: rest.map .word)
    else do return (← of s) :: (← ofAll rest)

/-- The short options written behind a first one. -/
def clustered (f : Flag) : Text → Except Misuse (List Flag)
  | [] => .ok [f]
  | c :: rest =>
    match Flag.ofShort? c with
    | some g => (clustered g rest).map (f :: ·)
    | none => .error (.unusedValue f (c :: rest))

end Argument

inductive Request where
  | help
  | index (path : Text) (verbose : Bool)
  deriving DecidableEq, Repr

structure Reading where
  path : Option Text := none
  verbose : Bool := false
  unrecognized : List Text := []

namespace Reading

/-- A word is the path, if there is none yet. -/
def word (r : Reading) (s : Text) : Reading :=
  if r.path.isNone then { r with path := some s }
  else { r with unrecognized := r.unrecognized ++ [s] }

/-- Reads the arguments from left to right. A divider counts as an argument of its own unless it
stands directly at the path. -/
def request (r : Reading) : List Argument → Except Misuse Request
  | [] =>
    if r.unrecognized.isEmpty then .ok (.index (r.path.getD ['.']) r.verbose)
    else .error (.unrecognized r.unrecognized)
  | .word s :: .divider :: rest =>
    if r.path.isNone then (r.word s).request rest
    else ((r.word s).word "--".toList).request rest
  | .word s :: rest => (r.word s).request rest
  | .divider :: rest =>
    if r.path.isNone then r.request rest else (r.word "--".toList).request rest
  | .unknown s :: rest => { r with unrecognized := r.unrecognized ++ [s] }.request rest
  | .option .help :: _ => .ok .help
  | .option .verbose :: rest => { r with verbose := true }.request rest
  | .long f value :: _ => .error (.unusedValue f value)
  | .cluster f [] :: _ => .error (.unusedValue f [])
  | .cluster f value :: rest =>
    match Argument.clustered f value with
    | .error misuse => .error misuse
    | .ok flags =>
      if flags.contains .help then .ok .help else { r with verbose := true }.request rest

end Reading

def Request.ofArguments (arguments : List Text) : Except Misuse Request := do
  Reading.request {} (← Argument.ofAll arguments)

structure UnknownLevel where
  name : Text
  deriving DecidableEq, Repr

def UnknownLevel.message (e : UnknownLevel) : Text :=
  "Unknown level: ".toList ++ Text.quoted e.name

def levels : List (Text × Nat) :=
  [("CRITICAL", 50), ("FATAL", 50), ("ERROR", 40), ("WARN", 30), ("WARNING", 30), ("INFO", 20),
    ("DEBUG", 10), ("NOTSET", 0)].map fun (name, rank) => (name.toList, rank)

def threshold (s : Settings) (verbose : Bool) : Except UnknownLevel Nat :=
  if verbose then .ok Severity.debug.rank
  else match levels.lookup s.logLevel with
    | some rank => .ok rank
    | none => .error ⟨s.logLevel⟩

/-- Whether a locale is at hand: only the plain ones are. -/
def hasLocale (name : Text) : Bool :=
  let codeset (s : Text) := (s.filter Char.isAlphanum).map Char.toLower
  match name with
  | 'C' :: '.' :: rest => codeset rest == "utf8".toList
  | _ => name == [] || name == ['C'] || name == "POSIX".toList

def localeRecord : Record :=
  ⟨.warning, "cli", "Sorting names by code point: unsupported locale setting".toList⟩

def doneRecord (path : Text) (files : Nat) : Record :=
  ⟨.info, "cli", "Indexed ".toList ++ Text.ofNat files ++ " files under ".toList ++ path⟩

def failedRecord (path : Text) : Record :=
  ⟨.error, "cli", "Indexing ".toList ++ path ++ " failed".toList⟩

inductive Verdict where
  | done
  | help
  | failed (f : Failure)
  | misused (m : Misuse)

def Verdict.status : Verdict → Nat
  | done | help => 0
  | failed _ => 1
  | misused _ => 2

/-- What a command leaves behind: the records that are shown, and the files. -/
structure Ending where
  records : List Record := []
  fileSystem : FileSystem
  verdict : Verdict

def index (s : Settings) (locale : Text) (fs : FileSystem) (path : Text) (least : Nat) : Ending :=
  let ran := run s fs path
  let (last, verdict) : Record × Verdict :=
    match ran.outcome with
    | .ok edits => (doneRecord path edits.length, .done)
    | .error failure => (failedRecord path, .failed failure)
  let all := (if hasLocale locale then [] else [localeRecord]) ++ ran.records ++ [last]
  ⟨all.filter (least ≤ ·.severity.rank), ran.fileSystem, verdict⟩

/-- Carries out a command. The log level is looked at only when there is something to log. -/
def execute (s : Settings) (locale : Text) (fs : FileSystem) (arguments : List Text) :
    Except UnknownLevel Ending :=
  match Request.ofArguments arguments with
  | .error misuse => .ok { fileSystem := fs, verdict := .misused misuse }
  | .ok .help => .ok { fileSystem := fs, verdict := .help }
  | .ok (.index path verbose) => (threshold s verbose).map (index s locale fs path)

end DocTree.Command
