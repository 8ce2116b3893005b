import DocTree.Text.Case
import DocTree.Text.Integer
import DocTree.Text.Quoted

/-!
# Settings

What a user may choose: the name of the document that stands for its directory, the ending of
Markdown file names, the depth of a table of contents and the level of the log.
-/
namespace DocTree

structure Settings where
  /-- Name of the document that represents its directory in listings and navigation. -/
  rootDocument : Text := "README.md".toList
  /-- Ending of the names of Markdown files. -/
  extension : Text := ".md".toList
  /-- Deepest heading level that a table of contents lists. -/
  tocDepth : Int := 3
  /-- Name of the least severe level that is logged, in upper case. -/
  logLevel : Text := "WARNING".toList
  /-- Components of the directory against which relative paths are read. -/
  workingDirectory : List Text := []
  deriving DecidableEq, Repr

namespace Settings

structure BadDepth where
  value : Text
  deriving DecidableEq, Repr

def BadDepth.message (e : BadDepth) : Text :=
  "invalid literal for int() with base 10: ".toList ++ (Text.quoted e.value).take 200

/-- Reads the settings from environment variables; what is not set has its default. -/
def ofEnvironment (environment : List (Text × Text)) : Except BadDepth Settings :=
  let value (name : String) := environment.lookup name.toList
  let defaults : Settings := {}
  let chosen : Settings :=
    { defaults with
      rootDocument := (value "MDINDEX_ROOT_DOCUMENT").getD defaults.rootDocument
      extension := (value "MDINDEX_MARKDOWN_EXTENSION").getD defaults.extension
      logLevel := ((value "MDINDEX_LOG_LEVEL").map Text.upper).getD defaults.logLevel }
  match value "MDINDEX_TOC_MAX_LEVEL" with
  | none => .ok chosen
  | some text =>
    match Text.Integer.read? text with
    | some depth => .ok { chosen with tocDepth := depth }
    | none => .error ⟨text⟩

def isMarkdown (s : Settings) (filename : Text) : Bool :=
  s.extension.isSuffixOf filename

/-- A name without the ending of Markdown files; without an ending to look for nothing is left. -/
def stem (s : Settings) (name : Text) : Text :=
  if s.extension = [] then []
  else if s.isMarkdown name then name.take (name.length - s.extension.length)
  else name

end Settings

end DocTree
