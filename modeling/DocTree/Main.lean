import DocTree.Command

/-!
# The program

Reads the names of the files that may be looked at from standard input, one a line, carries out
the command on them and writes back those that changed. Names are relative to the working
directory. The log goes to standard error.
-/
namespace DocTree.Program

def variableNames : List String :=
  ["MDINDEX_ROOT_DOCUMENT", "MDINDEX_MARKDOWN_EXTENSION", "MDINDEX_TOC_MAX_LEVEL",
    "MDINDEX_LOG_LEVEL"]

def environment : IO (List (Text × Text)) := do
  let values ← variableNames.mapM fun name => return (name, ← IO.getEnv name)
  return values.filterMap fun (name, value) => value.map fun v => (name.toList, v.toList)

partial def lines (input : IO.FS.Stream) : IO (List String) := do
  let line ← input.getLine
  if line.isEmpty then return []
  let rest ← lines input
  return (if line.back = '\n' then String.ofList line.toList.dropLast else line) :: rest

/-- The named files, in directories made for them. -/
def gather (names : List String) : IO FileSystem := do
  let mut fs : FileSystem := { root := .directory [] }
  for name in names do
    let place := Path.place [] name.toList
    let bytes ← IO.FS.readBinFile name
    let root := (fs.makeDirectories [] place.dropLast).root
    fs := { fs with root := Node.put (.file bytes.toList) place root }
  return fs

/-- Writes the files that differ from what they were. -/
def scatter (before after : FileSystem) : IO Unit := do
  for (name, bytes) in after.files do
    if before.files.lookup name != some bytes then
      IO.FS.writeBinFile (String.ofList name) ⟨bytes.toArray⟩

def complain (s : Text) : IO Unit :=
  IO.eprintln (String.ofList s)

def usage : String := "usage: mdindex [-h] [-v] [path]"

end DocTree.Program

open DocTree DocTree.Program
def main (arguments : List String) : IO UInt32 := do
  match Settings.ofEnvironment (← environment) with
  | .error fault =>
    complain fault.message
    return 1
  | .ok settings =>
    let locale := ((← IO.getEnv "LC_ALL").getD "").toList
    match Command.Request.ofArguments (arguments.map String.toList) with
    | .ok .help =>
      IO.println usage
      return 0
    | .error misuse =>
      complain (usage.toList ++ "\nmdindex: error: ".toList ++ misuse.message)
      return 2
    | .ok (.index _ _) =>
      let fs ← gather (← lines (← IO.getStdin))
      match Command.execute settings locale fs (arguments.map String.toList) with
      | .error fault =>
        complain fault.message
        return 1
      | .ok ending =>
        scatter fs ending.fileSystem
        for record in ending.records do
          complain record.toText
        if let .failed failure := ending.verdict then
          complain failure.message
        return UInt32.ofNat ending.verdict.status
