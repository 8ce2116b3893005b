import DocTree.Markdown.Line
import DocTree.Markdown.Tag

/-!
# Blocks and how they begin

The blocks of a document are kept as one list in document order, a container before what it
holds. This module has their type and the tests that tell which block begins on a line, seen from
the container the line stands in.
-/
namespace DocTree.Markdown

/-- What a block is; paragraphs and headings have content of type `α`. -/
inductive BlockKind (α : Type) where
  | paragraph (content : α)
  | heading (level : Nat) (content : α)
  | code
  | fence
  | rule
  | html (literal : Text)
  | quote
  | bulletList
  | orderedList
  | item
  | definition (label : Text)
  deriving DecidableEq, Repr

structure Block (α : Type) where
  index : Nat
  kind : BlockKind α
  deriving DecidableEq, Repr

def Block.line {α : Type} (b : Block α) : Nat :=
  b.index + 1

def BlockKind.map {α β : Type} (f : α → β) : BlockKind α → BlockKind β
  | .paragraph content => .paragraph (f content)
  | .heading level content => .heading level (f content)
  | .code => .code
  | .fence => .fence
  | .rule => .rule
  | .html literal => .html literal
  | .quote => .quote
  | .bulletList => .bulletList
  | .orderedList => .orderedList
  | .item => .item
  | .definition label => .definition label

def Block.map {α β : Type} (f : α → β) (b : Block α) : Block β :=
  ⟨b.index, b.kind.map f⟩

/-- The container that lines are read in: the column where its content begins, and for a list item
the column of its list. -/
structure Frame where
  indent : Nat := 0
  list : Option Nat := none
  deriving DecidableEq, Repr

/-- Whether a line is indented so far that it is code where a block may begin. -/
def Frame.isCode (f : Frame) (l : Line) : Bool :=
  (f.indent : Int) + 4 ≤ l.indent

structure Fence where
  mark : Char
  length : Nat
  deriving DecidableEq, Repr

/-- What follows a backtick fence on its line holds no backtick. -/
def Fence.of? (f : Frame) (l : Line) : Option Fence :=
  match l.content with
  | [] => none
  | c :: rest =>
    let length := (rest.takeWhile (· == c)).length + 1
    if f.isCode l || !(c == '~' || c == '`') || length < 3 then none
    else if c == '`' && (rest.drop (length - 1)).contains '`' then none
    else some ⟨c, length⟩

def Fence.isClosedBy (fence : Fence) (f : Frame) (l : Line) : Bool :=
  let run := l.content.takeWhile (· == fence.mark)
  !f.isCode l && fence.length ≤ run.length && (l.content.drop run.length).all Text.isGap

def startsQuote (f : Frame) (l : Line) : Bool :=
  !f.isCode l && l.content.head? == some '>'

/-- A thematic break: three or more of one mark, and blanks. -/
def isRule (f : Frame) (l : Line) : Bool :=
  match l.content with
  | [] => false
  | c :: rest =>
    !f.isCode l && (c == '*' || c == '-' || c == '_') &&
      rest.all (fun d => d == c || Text.isGap d) && 2 ≤ rest.count c

/-- The text of a heading without the marks that close it. -/
def headingText (s : Text) : Text :=
  let body := (s.reverse.dropWhile Text.isGap).reverse
  let unclosed := (body.reverse.dropWhile (· == '#')).reverse
  Text.trim Text.isMargin (if unclosed.getLast?.any Text.isGap then unclosed else body)

def heading? (f : Frame) (l : Line) : Option (Nat × Text) :=
  let level := (l.content.takeWhile (· == '#')).length
  let rest := l.content.drop level
  if f.isCode l || level = 0 || 6 < level || !rest.head?.all Text.isGap then none
  else some (level, headingText rest)

def underline? (l : Line) : Option Nat :=
  match l.content with
  | [] => none
  | c :: rest =>
    if (c == '-' || c == '=') && (rest.dropWhile (· == c)).all Text.isGap then
      some (if c == '=' then 1 else 2)
    else none

/-- The marker of a list item. Items of one list have markers of one kind. -/
structure ListMarker where
  mark : Char
  number : Option Nat
  width : Nat
  deriving DecidableEq, Repr

/-- A marker ends the line or has a blank after it. -/
def ListMarker.of? (s : Text) : Option ListMarker :=
  let digits := s.takeWhile Char.isDigit
  match s.drop digits.length with
  | [] => none
  | c :: rest =>
    if !rest.head?.all Text.isGap then none
    else if digits.isEmpty then
      if c == '*' || c == '-' || c == '+' then some ⟨c, none, 1⟩ else none
    else if digits.length ≤ 9 && (c == '.' || c == ')') then
      some ⟨c, some (Text.readDigits 10 (digits.map fun d => d.toNat - 48)), digits.length + 1⟩
    else none

def ListMarker.isLike (m n : ListMarker) : Bool :=
  m.mark == n.mark && m.number.isSome == n.number.isSome

/-- The marker of a list that begins on a line. A list that breaks into a paragraph has content
on its first line and begins with one if it is numbered. -/
def listStart? (interrupting : Bool) (f : Frame) (l : Line) : Option ListMarker :=
  if f.isCode l then none
  else if f.list.any (fun column => (column : Int) + 4 ≤ l.indent) && l.indent < f.indent then none
  else
    (ListMarker.of? l.content).filter fun m =>
      !(interrupting && (f.indent : Int) ≤ l.indent) ||
        (m.number.all (· == 1) && !(l.content.drop m.width).all Text.isGap)

def html? (f : Frame) (l : Line) : Option Tag.HtmlKind :=
  if f.isCode l then none else Tag.HtmlKind.of? l.content

/-- What a line may break into without an empty line before it. -/
inductive Interrupted where
  | paragraph
  | quote
  | list
  deriving DecidableEq, Repr

def interrupts (what : Interrupted) (f : Frame) (l : Line) : Bool :=
  (Fence.of? f l).isSome || startsQuote f l || isRule f l ||
    (what != .list &&
      ((listStart? (what == .paragraph) f l).isSome || (heading? f l).isSome ||
        (html? f l).any Tag.HtmlKind.interrupts))

end DocTree.Markdown
