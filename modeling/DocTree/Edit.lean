import DocTree.Text.Lines
import DocTree.Text.Wide

/-!
# Edits

An edit puts a block of text in place of a range of lines, or between two lines. The edits of one
text are carried out from the last line upward, so the line numbers of those still to come stay
valid. The breaks outside the replaced ranges are kept as they were; an inserted block is followed
by a line feed.
-/
namespace DocTree

/-- A range of lines, counted from one; `stop` is the first line after it. Without `stop` the
range is a place before `start`. -/
structure Span where
  start : Nat
  stop : Option Nat := none
  start_pos : 0 < start := by omega
  start_le_stop : ∀ n ∈ stop, start ≤ n := by simp
  deriving DecidableEq, Repr

def Span.past (s : Span) : Nat :=
  s.stop.getD s.start

/-- One edit of a text. The block may be a wide text. -/
structure Edit (γ : Type := Char) where
  span : Span
  content : List γ
  deriving DecidableEq, Repr

structure FileEdit where
  filename : Text
  edits : List Edit
  deriving DecidableEq, Repr

/-- The lines of a text under edit and the breaks between them. After an edit that starts past the
last line there may be fewer breaks than places for them. -/
structure Draft (γ : Type := Char) where
  lines : List (List γ)
  breaks : List Break
  deriving DecidableEq, Repr

namespace Draft

def ofText (s : Text) : Draft :=
  ⟨(Lines.ofText s).lines, (Lines.ofText s).breaks⟩

variable {γ : Type}

/-- Lines and written breaks in turn, until one of the two runs out. -/
def interleave (write : Break → List γ) : List Break → List (List γ) → List γ
  | b :: breaks, line :: lines => write b ++ line ++ interleave write breaks lines
  | _, _ => []

def join (write : Break → List γ) (d : Draft γ) : List γ :=
  match d.lines with
  | [] => []
  | first :: rest => first ++ interleave write d.breaks rest

def toText (d : Draft) : Text :=
  d.join Break.toText

def wide (d : Draft) : Draft CodePoint :=
  ⟨d.lines.map Text.wide, d.breaks⟩

def toWide (d : Draft CodePoint) : WideText :=
  d.join fun b => b.toText.wide

/-- Carries out one edit. The break after the last replaced line then follows the block. -/
def apply (d : Draft γ) (e : Edit γ) : Draft γ :=
  let start := e.span.start - 1
  let stop := e.span.past - 1
  { lines := d.lines.take start ++ e.content :: d.lines.drop stop
    breaks :=
      if start < stop then d.breaks.take start ++ d.breaks.drop (stop - 1)
      else d.breaks.take start ++ .lf :: d.breaks.drop start }

end Draft

namespace Edit

variable {γ : Type}

def wide (e : Edit) : Edit CodePoint :=
  ⟨e.span, Text.wide e.content⟩

def insertByStart (e : Edit γ) : List (Edit γ) → List (Edit γ)
  | [] => [e]
  | f :: rest =>
    if f.span.start ≤ e.span.start then e :: f :: rest else f :: insertByStart e rest

/-- Edits from the last start upward; those of one start keep their order. -/
def fromLast (edits : List (Edit γ)) : List (Edit γ) :=
  edits.foldr insertByStart []

end Edit

def Text.edited (s : Text) (edits : List Edit) : Text :=
  ((Edit.fromLast edits).foldl Draft.apply (Draft.ofText s)).toText

def Text.editedWide (s : Text) (edits : List (Edit CodePoint)) : WideText :=
  ((Edit.fromLast edits).foldl Draft.apply (Draft.ofText s).wide).toWide

end DocTree
