import DocTree.Document
import DocTree.Edit
import DocTree.Text.Quoted

/-!
# Markers

A block that the program writes stands between two comment lines that name it. This module writes
such blocks, finds them again and tells where a block goes that is not there yet.
-/
namespace DocTree

abbrev Marker := Text

namespace Marker

def toc : Marker := "TOC".toList

def nav : Marker := "NAV".toList

def beginLine (m : Marker) : Text :=
  "<!-- BEGIN ".toList ++ m ++ " -->".toList

def endLine (m : Marker) : Text :=
  "<!-- END ".toList ++ m ++ " -->".toList

/-- Content between marker lines; empty content takes no line. -/
def wrap (m : Marker) (content : Text) : Text :=
  m.beginLine ++ '\n' :: (if content.isEmpty then [] else content ++ ['\n']) ++ m.endLine

/-- The index of the last line on which an HTML block of some text begins. -/
def lastIndex? (literal : Text) (page : Markdown.Page) : Option Nat :=
  ((Markdown.Page.raws page).reverse.find? (·.literal == literal)).map (·.index)

end Marker

def Span.before (index : Nat) : Span :=
  { start := index + 1 }

/-- The lines from an index on to before another; the place before the first if there are none. -/
def Span.between (index past : Nat) : Span :=
  if h : index < past then
    { start := index + 1, stop := some (past + 1), start_le_stop := by simp; omega }
  else Span.before index

namespace Document

/-- The block of a marker, both marker lines included. The last lines of either kind count. Without
an end line after the begin line nothing is replaced. -/
def findMarker (d : Document) (m : Marker) : Option Span :=
  (Marker.lastIndex? m.beginLine d.page).map fun first =>
    match Marker.lastIndex? m.endLine d.page with
    | some last => Span.between first (last + 1)
    | none => Span.before first

inductive Location where
  | top
  | secondLevel
  | bottom
  deriving DecidableEq, Repr

def Location.ofName? (name : Text) : Option Location :=
  if name = "top".toList then some .top
  else if name = "h2".toList then some .secondLevel
  else if name = "bottom".toList then some .bottom
  else none

def bottom (d : Document) : Span :=
  Span.before d.lineCount

def secondLevel? (d : Document) : Option Span :=
  ((Markdown.Page.titles d.page).find? (·.level == 2)).map fun t => Span.before t.index

def find? (d : Document) : Location → Option Span
  | .top => some (Span.before 0)
  | .secondLevel => d.secondLevel?
  | .bottom => some d.bottom

structure UnknownLocation where
  name : Text
  deriving DecidableEq, Repr

def UnknownLocation.message (e : UnknownLocation) : Text :=
  "Unknown insert location: ".toList ++ Text.quoted e.name

def findNamed (d : Document) (name : Text) : Except UnknownLocation (Option Span) :=
  match Location.ofName? name with
  | some location => .ok (d.find? location)
  | none => .error ⟨name⟩

def firstOf (d : Document) (locations : List Location) : Span :=
  (locations.findSome? d.find?).getD d.bottom

/-- The first of some named places that the document has, or the bottom. An unknown name counts
only if no place before it serves. -/
def firstNamed (d : Document) : List Text → Except UnknownLocation Span
  | [] => .ok d.bottom
  | name :: rest =>
    match d.findNamed name with
    | .error e => .error e
    | .ok (some span) => .ok span
    | .ok none => d.firstNamed rest

/-- The edit that writes a block: over the one that is there, or at the first place that serves. -/
def editFor (d : Document) (m : Marker) (content : Text) (locations : List Location) : Edit :=
  ⟨(d.findMarker m).getD (d.firstOf locations), m.wrap content⟩

def editForNamed (d : Document) (m : Marker) (content : Text) (names : List Text) :
    Except UnknownLocation Edit :=
  match d.findMarker m with
  | some span => .ok ⟨span, m.wrap content⟩
  | none => (d.firstNamed names).map fun span => ⟨span, m.wrap content⟩

end Document

end DocTree
