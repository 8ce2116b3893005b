import DocTree.Text.Lines

/-!
# Source lines

A line of a Markdown document as a container sees it. A block quote takes its marker away; a list
item leaves its marker where it is and counts it to what stands in front of the content. What is
left keeps the columns it had, so that tabs keep their width. Columns are counted from zero and a
tab reaches to the next multiple of four.
-/
namespace DocTree.Markdown

structure Line where
  /-- Its place in the document, counted from zero. -/
  index : Nat
  /-- The column at which `raw` begins, for the width of tabs. -/
  base : Nat := 0
  /-- The width of what stands in front of the content. A negative one marks a line that belongs to
  a block quote only as the continuation of a paragraph. -/
  indent : Int
  /-- The number of characters in front of the content: blanks, and the markers of the list items
  that begin on the line. -/
  lead : Nat
  /-- The line without what block quotes took. -/
  raw : Text
  deriving DecidableEq, Repr

/-- The width of leading spaces and tabs, at an offset from the start of tab stops. -/
def blankWidth (offset : Nat) : Text → Nat
  | ' ' :: rest => blankWidth (offset + 1) rest + 1
  | '\t' :: rest => blankWidth (offset + (4 - offset % 4)) rest + (4 - offset % 4)
  | _ => 0

/-- Takes what stands in front of the content away up to a given width. A tab that reaches further
leaves spaces behind; a line with less in front loses that. `column` is the width taken so far and
`lead` counts the characters in front of the content. -/
def dropWidth (base width : Nat) : (column lead : Nat) → Text → Text
  | column, _, [] => List.replicate (column - width) ' '
  | column, lead, c :: rest =>
    if width ≤ column then List.replicate (column - width) ' ' ++ c :: rest
    else if c = '\t' then
      dropWidth base width (column + (4 - (column + base) % 4)) (lead - 1) rest
    else if c = ' ' || 0 < lead then dropWidth base width (column + 1) (lead - 1) rest
    else c :: rest

namespace Line

def content (l : Line) : Text :=
  l.raw.drop l.lead

def isEmpty (l : Line) : Bool :=
  l.content.isEmpty

def unindented (l : Line) (width : Nat) : Text :=
  dropWidth l.base width 0 l.lead l.raw

/-- A line with the blanks it begins with in front of its content, which are measured from a
column on. -/
def ofBlanks (index base column : Nat) (raw : Text) : Line :=
  ⟨index, base, blankWidth column raw, (raw.takeWhile Text.isGap).length, raw⟩

def numbered : Nat → List Text → List Line
  | _, [] => []
  | n, s :: rest => ofBlanks n 0 0 s :: numbered (n + 1) rest

/-- A null character stands for nothing and is replaced. -/
def withoutNull (s : Text) : Text :=
  s.map fun c => if c = Char.ofNat 0 then Char.ofNat 0xFFFD else c

/-- The lines of a document. What follows the last break is a line unless it is blank. -/
def ofText (s : Text) : List Line :=
  let lines := (Lines.ofText s).lines
  let kept := if (lines.getLastD []).all Text.isGap then lines.dropLast else lines
  numbered 0 (kept.map withoutNull)

/-- The line inside a list item, behind a marker of a given width. The content begins at column
`indent`. -/
def behind (l : Line) (width : Nat) (indent : Nat) : Line :=
  { l with
    indent := indent
    lead := l.lead + width + ((l.content.drop width).takeWhile Text.isGap).length }

/-- The line behind a block quote marker, together with the blank that belongs to the marker. A tab
belongs to it if it is one column wide there. -/
def quoted? (l : Line) : Option Line :=
  match l.content with
  | '>' :: rest =>
    let column := l.indent.toNat + 1
    let marked (base : Nat) (raw : Text) := ofBlanks l.index base (l.base + column + 1) raw
    match rest with
    | ' ' :: after => some (marked (column + 1) after)
    | '\t' :: after =>
      some (marked (column + 1) (if (l.base + column) % 4 = 3 then after else rest))
    | _ => some (marked column rest)
  | _ => none

end Line

end DocTree.Markdown
