import DocTree.Listing
import DocTree.Log
import DocTree.Path
import DocTree.Text.Lines

/-!
# Loading

Reads a Markdown file, or a directory with all that is to be indexed below it. Entries without
anything to index are left out once what is below them has been read, so a directory of empty
directories is empty itself.
-/
namespace DocTree

namespace Load

/-- The title and the remaining headings of a document: a first heading of the first level is the
title. -/
def titled (default : Text) (titles : List Markdown.Page.Title) : Text × List Heading :=
  let heading (t : Markdown.Page.Title) : Heading := ⟨t.level, t.text⟩
  match titles with
  | first :: rest =>
    if first.level = 1 then (first.text, rest.map heading) else (default, titles.map heading)
  | [] => (default, [])

def ofText (s : Settings) (filename contents : Text) : Document :=
  let page := Markdown.Page.ofText contents
  let (title, headings) := titled (s.stem (Path.baseName filename)) (Markdown.Page.titles page)
  { filename, title, page
    sections := Heading.nest filename headings
    lineCount := Text.lineCount contents }

def loadedRecord (d : Document) : Record :=
  ⟨.debug, "loading", "Loaded ".toList ++ d.filename ++ ": ".toList ++ Text.quoted d.title ++
    " with ".toList ++ Text.ofNat d.sections.length ++ " top-level sections".toList⟩

def skippedRecord (e : Entry) : Record :=
  ⟨.debug, "loading", "Skipping ".toList ++ e.filename ++ ": nothing to index".toList⟩

def document (s : Settings) (fs : FileSystem) (filename : Text) : Traced Document := do
  let contents ← Traced.lift (fs.readText filename)
  let d := ofText s filename contents
  Traced.report [loadedRecord d]
  return d

/-- A file that is no Markdown and whose content does not matter. -/
def other (filename : Text) : Document :=
  { filename, title := Path.baseName filename }

def entry (s : Settings) (fs : FileSystem) (directory : Text → Traced Entry) (path : Text) :
    Traced Entry := do
  match ← Traced.lift (fs.find path) with
  | .directory _ => directory path
  | _ =>
    if s.isMarkdown path then return .document (← document s fs path)
    else return .document (other path)

def rootDocument (s : Settings) (fs : FileSystem) (path : Text) : Traced (Option Document) := do
  let file := Path.join path s.rootDocument
  if ← Traced.lift (fs.exists? file) then return some (← document s fs file)
  else return none

/-- Reads a directory whose paths may grow by so many characters before they are too long. -/
def directoryWithin (s : Settings) (fs : FileSystem) : Nat → Text → Traced Entry
  | 0, path => Traced.lift (.error (.access .nameTooLong path))
  | room + 1, path => do
    let names ← Traced.lift (fs.names path)
    let root ← rootDocument s fs path
    let loaded ← (Listing.sort (Listing.visible s names)).mapM fun name =>
      entry s fs (directoryWithin s fs room) (Path.join path name)
    Traced.report ((loaded.filter (!Listing.isListed s ·)).map skippedRecord)
    let title := (root.map Document.title).getD (Path.baseName (Path.normal path))
    return .directory path title (loaded.filter (Listing.isListed s)) root

def directory (s : Settings) (fs : FileSystem) (path : Text) : Traced Entry :=
  directoryWithin s fs FileSystem.maxPath path

end Load

def load (s : Settings) (fs : FileSystem) (path : Text) : Traced Entry := do
  match ← Traced.lift (fs.find path) with
  | .directory _ => Load.directory s fs path
  | _ => return .document (← Load.document s fs path)

end DocTree
