import DocTree.Markdown.Page
import DocTree.Section

/-!
# Documents and directories

What is indexed: Markdown documents with their sections, and directories of them. A directory may
have a document of its own that represents it.
-/
namespace DocTree

structure Document where
  filename : Text
  title : Text
  sections : List Section := []
  page : Markdown.Page := []
  lineCount : Nat := 0
  deriving Repr

/-- A document or a directory. The entries of a directory stand in listing order. -/
inductive Entry where
  | document (d : Document)
  | directory (filename title : Text) (entries : List Entry) (root : Option Document)
  deriving Repr

namespace Entry

def filename : Entry → Text
  | document d => d.filename
  | directory filename .. => filename

def title : Entry → Text
  | document d => d.title
  | directory _ title .. => title

end Entry

/-- The neighbours of an entry in its directory, and the document one goes up to. -/
structure Nav where
  previous : Option Entry := none
  next : Option Entry := none
  up : Option Entry := none
  deriving Repr

def Nav.isEmpty (n : Nav) : Bool :=
  n.previous.isNone && n.next.isNone && n.up.isNone

end DocTree
