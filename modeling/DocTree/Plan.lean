import DocTree.Marker
import DocTree.Render

/-!
# Plans

The edits that bring the tables of contents and the navigation of a tree up to date, one entry for
each document. Entries of a directory lead to their neighbours and up to the directory's own
document; that document leads where the directory leads, and lists the entries.
-/
namespace DocTree.Plan

def fileEdit (d : Document) (toc nav : Text) : FileEdit :=
  ⟨d.filename,
    [d.editFor Marker.toc toc [.secondLevel, .bottom], d.editFor Marker.nav nav [.top]]⟩

def ofDocument (s : Settings) (d : Document) (n : Nav) : Except LinkFault FileEdit := do
  let nav ← Render.nav s d.filename n
  return fileEdit d (Render.sectionToc d.sections s.tocDepth) nav

def ofRoot (s : Settings) (root : Document) (entries : List Entry) (n : Nav) :
    Except LinkFault FileEdit := do
  let toc ← Render.fileToc s root.filename entries
  let nav ← Render.nav s root.filename n
  return fileEdit root toc nav

mutual

def ofEntry (s : Settings) : Entry → Nav → Except LinkFault (List FileEdit)
  | .document d, n => return [← ofDocument s d n]
  | .directory _ _ entries root, n => do
    let inner ← ofEntries s (root.map .document) none entries
    match root with
    | none => return inner
    | some root => return inner ++ [← ofRoot s root entries n]

/-- The edits of the entries of a directory, `previous` being the entry before them. -/
def ofEntries (s : Settings) (up previous : Option Entry) :
    List Entry → Except LinkFault (List FileEdit)
  | [] => return []
  | e :: rest => do
    let first ← ofEntry s e { previous, next := rest.head?, up }
    return first ++ (← ofEntries s up (some e) rest)

end

end DocTree.Plan
