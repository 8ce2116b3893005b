import DocTree.Markdown.Address
import DocTree.Markdown.Entity
import DocTree.Text.Case

/-!
# Link destinations, titles and labels

The pieces that inline links and link reference definitions have in common. Each reader returns
what follows the piece it has read.
-/
namespace DocTree.Markdown

/-- What follows a destination's closing angle bracket, and what stands before it. -/
def Destination.bracketed? : Text → Option (Text × Text)
  | [] => none
  | '\\' :: c :: rest => (bracketed? rest).map fun (s, after) => ('\\' :: c :: s, after)
  | c :: rest =>
    if c = '\n' || c = '<' then none
    else if c = '>' then some ([], rest)
    else (bracketed? rest).map fun (s, after) => (c :: s, after)

/-- A destination without brackets around it, and what follows. It ends before a blank, a control
character or a closing parenthesis that it has not opened; parentheses nest at most 32 deep. -/
def Destination.bare? : (depth : Nat) → Text → Option (Text × Text)
  | depth, [] => if depth = 0 then some ([], []) else none
  | depth, '\\' :: ' ' :: rest => if depth = 0 then some ([], '\\' :: ' ' :: rest) else none
  | depth, '\\' :: c :: rest => (bare? depth rest).map fun (s, after) => ('\\' :: c :: s, after)
  | depth, c :: rest =>
    if c.toNat ≤ 32 || c.toNat = 127 || (c = ')' && depth = 0) then
      if depth = 0 then some ([], c :: rest) else none
    else if c = '(' then
      if 32 ≤ depth then none
      else (bare? (depth + 1) rest).map fun (s, after) => (c :: s, after)
    else if c = ')' then (bare? (depth - 1) rest).map fun (s, after) => (c :: s, after)
    else (bare? depth rest).map fun (s, after) => (c :: s, after)

/-- Reads a destination as it is written. A bare one is not empty. -/
def Destination.read? (s : Text) : Option (Text × Text) :=
  match s with
  | '<' :: rest => bracketed? rest
  | _ => (bare? 0 s).filter fun (written, _) => !written.isEmpty

def Destination.isAllowed (written : Text) : Bool :=
  Address.isAllowed (Entity.unescape written)

/-- The title up to its closing character, and what follows. A title in parentheses holds no other
opening one. -/
def Title.closed? (close : Char) : Text → Option (Text × Text)
  | [] => none
  | '\\' :: c :: rest => (closed? close rest).map fun (s, after) => ('\\' :: c :: s, after)
  | c :: rest =>
    if c = close then some ([], rest)
    else if c = '(' && close = ')' then none
    else (closed? close rest).map fun (s, after) => (c :: s, after)

def Title.read? : Text → Option (Text × Text)
  | '"' :: rest => closed? '"' rest
  | '\'' :: rest => closed? '\'' rest
  | '(' :: rest => closed? ')' rest
  | _ => none

def isLinkGap (c : Char) : Bool :=
  Text.isGap c || c == '\n'

/-- A text with one space for each run of blanks. `gap` tells whether a run is open. -/
def collapseFrom (gap : Bool) : Text → Text
  | [] => []
  | c :: rest =>
    if Text.isBlank c then
      if gap then collapseFrom true rest else ' ' :: collapseFrom true rest
    else c :: collapseFrom false rest

def Label.ofText (s : Text) : Text :=
  Text.capitalForm (collapseFrom false (Text.trim Text.isBlank s))

/-- The text between square brackets at the start of a definition, and what follows. A bracket in
it must be escaped. -/
def Label.closed? : Text → Option (Text × Text)
  | [] => none
  | '\\' :: c :: rest => (closed? rest).map fun (s, after) => ('\\' :: c :: s, after)
  | c :: rest =>
    if c = '[' then none
    else if c = ']' then some ([], rest)
    else (closed? rest).map fun (s, after) => (c :: s, after)

/-- A link reference definition: its label in comparable form, and the number of lines it fills. -/
structure Definition where
  label : Text
  lines : Nat
  deriving DecidableEq, Repr

def endsLine (s : Text) : Bool :=
  match s.dropWhile Text.isGap with
  | [] => true
  | c :: _ => c == '\n'

/-- What follows the title of a definition, if it has one. The title stands apart from the
destination, or holds a line break. Something else on its line makes it no title, unless it is
empty: then there is no definition. -/
def Definition.afterTitle? (afterDestination : Text) : Option Text :=
  let start := afterDestination.dropWhile isLinkGap
  match Title.read? start with
  | some (title, after) =>
    if start.length < afterDestination.length || title.contains '\n' then
      if endsLine after then some after
      else if title.isEmpty then none
      else some afterDestination
    else some afterDestination
  | none => some afterDestination

/-- What follows the destination of a definition and its title. The destination lies on one line:
where it escapes the break at its end, nothing belongs to the definition any more. -/
def Definition.afterDestination? (s : Text) : Option Text := do
  let line := s.takeWhile (· != '\n')
  let rest := s.drop line.length
  let (destination, after) ← Destination.read? (line ++ rest.take 1)
  if !Destination.isAllowed destination then none
  if after.isEmpty then return rest
  Definition.afterTitle? (after ++ rest.drop 1)

def Definition.read? (s : Text) : Option Definition := do
  let '[' :: body := s | none
  let (label, after) ← Label.closed? body
  let ':' :: after := after | none
  let after ← Definition.afterDestination? (after.dropWhile isLinkGap)
  if !endsLine after then none
  let label := Label.ofText label
  if label.isEmpty then none
  return ⟨label, (s.take (s.length - after.length)).count '\n' + 1⟩

end DocTree.Markdown
