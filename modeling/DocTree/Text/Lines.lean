import DocTree.Text.Basic

/-!
# Lines

A text cut into lines and the breaks between them. `\r\n`, `\r` and `\n` all end a line. Reading
a text and joining the lines again gives the text back.
-/
namespace DocTree

inductive Break where
  | lf
  | cr
  | crlf
  deriving DecidableEq, Repr

def Break.toText : Break → Text
  | .lf => ['\n']
  | .cr => ['\r']
  | .crlf => ['\r', '\n']

/-- A first line, and after each break another one. -/
structure Lines where
  first : Text
  rest : List (Break × Text)
  deriving DecidableEq, Repr

namespace Lines

def push (c : Char) (l : Lines) : Lines :=
  { l with first := c :: l.first }

def start (b : Break) (l : Lines) : Lines :=
  ⟨[], (b, l.first) :: l.rest⟩

def ofText : Text → Lines
  | [] => ⟨[], []⟩
  | '\r' :: '\n' :: s => (ofText s).start .crlf
  | '\r' :: s => (ofText s).start .cr
  | '\n' :: s => (ofText s).start .lf
  | c :: s => (ofText s).push c

def toText (l : Lines) : Text :=
  l.first ++ l.rest.flatMap fun (b, line) => b.toText ++ line

@[simp] theorem toText_push (c : Char) (l : Lines) : (l.push c).toText = c :: l.toText := rfl

@[simp] theorem toText_start (b : Break) (l : Lines) :
    (l.start b).toText = b.toText ++ l.toText := by
  simp [start, toText]

/-- Reading a text into lines loses nothing. -/
@[simp] theorem toText_ofText (s : Text) : (ofText s).toText = s := by
  fun_induction ofText s with
  | case1 => rfl
  | case2 s ih => simp [ih, Break.toText]
  | case3 s _ ih => simp [ih, Break.toText]
  | case4 s ih => simp [ih, Break.toText]
  | case5 c s _ _ _ ih => simp [ih]

def lines (l : Lines) : List Text :=
  l.first :: l.rest.map (·.2)

/-- The breaks in order, one fewer than there are lines. -/
def breaks (l : Lines) : List Break :=
  l.rest.map (·.1)

theorem length_lines (l : Lines) : l.lines.length = l.breaks.length + 1 := by
  simp [lines, breaks]

/-- The number of lines; a break at the very end begins no further line. -/
def count (l : Lines) : Nat :=
  if l.lines.getLast? = some [] then l.rest.length else l.rest.length + 1

end Lines

def Text.lineCount (s : Text) : Nat :=
  (Lines.ofText s).count

end DocTree
