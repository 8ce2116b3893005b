import DocTree.Document
import DocTree.Path
import DocTree.Settings

/-!
# Tables of contents, navigation and links

The Markdown that is written between marker lines. A link leads to its target from the directory
of the document it stands in.
-/
namespace DocTree

/-- A link to something without a name. -/
inductive LinkFault where
  | noPath
  deriving DecidableEq, Repr

def LinkFault.message : LinkFault → String
  | .noPath => "no path specified"

def tocRule : Text := "---".toList

namespace Render

def ofLines (lines : List Text) : Text :=
  List.intercalate ['\n'] lines

def link (title target : Text) : Text :=
  '[' :: title ++ "](".toList ++ target ++ [')']

/-- The line of a section in a table of contents. Sections of the second level stand flush left
and each level below is two spaces further in. -/
def tocLine (s : Section) : Text :=
  List.replicate (2 * (s.level - 2).toNat) ' ' ++ "- ".toList ++ link s.title s.anchor

/-- The table of contents of a document, down to a level; empty if it has no sections. -/
def sectionToc (sections : List Section) (depth : Int) : Text :=
  if sections.isEmpty then []
  else
    ofLines ([tocRule, "Table of Contents".toList, []] ++
      (Section.flattenAll depth sections).map tocLine ++ [tocRule])

/-- The path of an entry as seen from the document `filename`. A document that is not named like
a Markdown file counts as a directory. -/
def target (s : Settings) (filename : Text) (o : Entry) : Except LinkFault Text :=
  let base := if s.isMarkdown filename then Path.dirName filename else filename
  if o.filename.isEmpty then .error .noPath
  else
    let path := Path.relative s.workingDirectory o.filename base
    .ok (if path = ['.'] then s.rootDocument else path)

def entryLink (s : Settings) (filename : Text) (o : Entry) : Except LinkFault Text :=
  (target s filename o).map (link o.title)

/-- The list of a directory's entries; empty if it has none. -/
def fileToc (s : Settings) (filename : Text) (entries : List Entry) : Except LinkFault Text := do
  if entries.isEmpty then return []
  let links ← entries.mapM (entryLink s filename)
  return ofLines ([tocRule, "In this directory".toList, []] ++
    links.map ("- ".toList ++ ·) ++ [tocRule])

def row (a b c : Text) : Text :=
  "| ".toList ++ a ++ " | ".toList ++ b ++ " | ".toList ++ c ++ " |".toList

def cell (s : Settings) (filename : Text) : Option Entry → Except LinkFault Text
  | none => .ok []
  | some o => entryLink s filename o

def cellTitle (title : String) (content : Text) : Text :=
  if content.isEmpty then [] else title.toList

/-- The navigation table of a document; empty if there is nowhere to go. -/
def nav (s : Settings) (filename : Text) (n : Nav) : Except LinkFault Text := do
  if n.isEmpty then return []
  let previous ← cell s filename n.previous
  let up ← cell s filename n.up
  let next ← cell s filename n.next
  return ofLines
    [row (cellTitle "← Previous" previous) (cellTitle "↑ Up" up) (cellTitle "Next →" next),
      "|:--|:-:|--:|".toList, row previous up next]

end Render

end DocTree
