import DocTree.Document
import DocTree.Settings

/-!
# Listings

Which names of a directory are looked at, in which order, and which entries deserve a place in its
listing.
-/
namespace DocTree.Listing

/-- Names in order regardless of case, then as they are written. -/
def before (a b : Text × Text) : Bool :=
  if a.1 = b.1 then Text.le a.2 b.2 else Text.le a.1 b.1

def insert (a : Text × Text) : List (Text × Text) → List (Text × Text)
  | [] => [a]
  | b :: rest => if before a b then a :: b :: rest else b :: insert a rest

def sort (names : List Text) : List Text :=
  ((names.map fun name => (Text.fold name, name)).foldr insert []).map (·.2)

/-- The names that are looked at: neither hidden nor that of the directory's own document. -/
def visible (s : Settings) (names : List Text) : List Text :=
  names.filter fun name => name != s.rootDocument && name.head? != some '.'

/-- Markdown files are listed, and directories with something to show. -/
def isListed (s : Settings) : Entry → Bool
  | .document d => s.isMarkdown d.filename
  | .directory _ _ entries root => root.isSome || !entries.isEmpty

end DocTree.Listing
