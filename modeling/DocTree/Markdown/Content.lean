import DocTree.Markdown.Destination
import DocTree.Markdown.Emphasis
import DocTree.Markdown.Tag

/-!
# Reading inline content

The content of a paragraph or heading is read from left to right. Where a token begins, its length
is measured first: code, raw HTML, addresses and whole links count as one when the end of a link
text is looked for. Measuring remembers each place it has been to, so that it stays fast, and goes
only so many link texts deep: past that depth the rest of the content counts as one token and no
link text that reaches there is closed. The search for the end of code is remembered as well.
-/
namespace DocTree.Markdown.Content

inductive Token where
  | literal (s : Text)
  | piece (p : Inline)
  | newline
  | address (shown : Text)
  | link (content : Text)
  | image (content : Text)
  deriving DecidableEq, Repr

structure Scope where
  /-- The labels that are defined. -/
  labels : List Text
  /-- The content as a whole. Code and raw HTML are looked for past the end of a link text. -/
  source : Text

structure Memory where
  /-- The lengths of tokens measured so far, by place. -/
  lengths : List (Nat × Nat) := []
  /-- The runs of backticks that were passed in search of another, the last one first: the length
  of each, and its place. -/
  passed : List (Nat × Nat) := []
  /-- Whether a search for backticks has gone to the end in vain. -/
  exhausted : Bool := false

abbrev Reading := StateM Memory

/-- Measures the token at a place with some text ahead. -/
abbrev Measure := Nat → Text → Reading Nat

/-- The runs of backticks in a text that begins at a place: the length of each, and its place. From
`limit` on each backtick is a run of its own; `run` counts those of the run that is open. -/
def tickRuns (limit place run : Nat) : Text → List (Nat × Nat)
  | [] => if run = 0 then [] else [(run, place - run)]
  | c :: rest =>
    let mark := if c = '`' then 1 else 0
    if run = 0 || (c == '`' && place < limit) then
      tickRuns limit (place + 1) (run + mark) rest
    else (run, place - run) :: tickRuns limit (place + 1) mark rest

/-- A code span, or the backticks that begin none. Once a search has been in vain, only a run that
was passed further on is looked for again. -/
def code (scope : Scope) (place : Nat) (s : Text) : Reading (Token × Nat) := do
  let ticks := s.takeWhile (· == '`')
  let n := ticks.length
  let memory ← get
  if memory.exhausted && (memory.passed.lookup n).getD 0 ≤ place then return (.literal ticks, n)
  let ahead := tickRuns (place + s.length) (place + n) 0 (scope.source.drop (place + n))
  let passed := ahead.takeWhile (·.1 != n)
  let memory := { memory with passed := passed.reverse ++ memory.passed }
  match ahead.drop passed.length with
  | (_, start) :: _ =>
    set memory
    return (.piece .code, start + n - place)
  | [] =>
    set { memory with exhausted := true }
    return (.literal ticks, n)

/-- A backslash before a line break breaks the line; before other punctuation it vanishes. -/
def escape? : Text → Option (Token × Nat)
  | '\\' :: '\n' :: rest => some (.piece .hardBreak, 2 + (rest.takeWhile Text.isGap).length)
  | '\\' :: c :: _ =>
    some (.piece (.escaped (if Text.isAsciiPunctuation c then [c] else ['\\', c])), 2)
  | _ => none

def newline (s : Text) : Token × Nat :=
  (.newline, 1 + ((s.drop 1).takeWhile Text.isGap).length)

def withoutBreak (s : Text) : Text :=
  if s.getLast? = some '\n' then s.dropLast else s

/-- A scheme of 2 to 32 characters, a colon, and neither blanks nor control characters. -/
def isUri (s : Text) : Bool :=
  let scheme := s.takeWhile Address.isSchemeChar
  let rest := s.drop scheme.length
  scheme.head?.any Char.isAlpha && 2 ≤ scheme.length && scheme.length ≤ 32 &&
    rest.head? == some ':' && (withoutBreak rest).all fun c => 32 < c.toNat

def isMailChar (c : Char) : Bool :=
  c.isAlphanum || ".!#$%&'*+/=?^_\x60\x7b|\x7d~-".toList.contains c

/-- A label of a mail domain: letters, digits and hyphens, no hyphen at either end. -/
def isMailLabel (s : Text) : Bool :=
  s.length ≤ 63 && s.head?.any Char.isAlphanum && s.getLast?.any Char.isAlphanum &&
    s.all fun c => c.isAlphanum || c == '-'

def isMail (s : Text) : Bool :=
  let name := s.takeWhile isMailChar
  match s.drop name.length with
  | '@' :: domain =>
    !name.isEmpty && (Text.splitOn '.' (withoutBreak domain)).all isMailLabel
  | _ => false

def address? : Text → Option (Token × Nat)
  | '<' :: rest =>
    let s := rest.takeWhile fun c => c != '<' && c != '>'
    if (rest.drop s.length).head? == some '>' && (isUri s || isMail s) && Address.isAllowed s then
      some (.address (Address.shown s), s.length + 2)
    else none
  | _ => none

/-- Raw HTML, if three characters are left for it. -/
def html? (scope : Scope) (place : Nat) (s : Text) : Option (Token × Nat) :=
  if s.length < 3 then none
  else
    let s := scope.source.drop place
    (Tag.raw? s).map fun rest => (.piece .html, s.length - rest.length)

def entity? (s : Text) : Option (Token × Nat) :=
  (Entity.read? s).map fun (value, rest) => (.piece (.escaped value), s.length - rest.length)

/-- The length of a link text, up to the bracket that closes it. `brackets` counts those open in it
and `hop` the characters of the token just passed. With `alone`, a link text that holds a
link is none. -/
def labelLength (measure : Measure) (alone : Bool) :
    (brackets hop place : Nat) → Text → Reading (Option Nat)
  | _, _, _, [] => return none
  | brackets, hop + 1, place, _ :: rest => do
    let n? ← labelLength measure alone brackets hop (place + 1) rest
    return n?.map (· + 1)
  | brackets, 0, place, c :: rest => do
    if c == ']' && brackets == 0 then return some 0
    let n ← measure place (c :: rest)
    if c == '[' && 1 < n && alone then return none
    let brackets :=
      if c == '[' && n == 1 then brackets + 1
      else if c == ']' then brackets - 1
      else brackets
    let n? ← labelLength measure alone brackets (n - 1) (place + 1) rest
    return n?.map (· + 1)

/-- What follows an opening parenthesis: a destination and a title up to the closing one, nothing
at all, or something else from which a reference may still be read. -/
inductive Target where
  | closed (rest : Text)
  | missing
  | other (rest : Text)
  deriving DecidableEq, Repr

def Target.close : Text → Target
  | ')' :: rest => .closed rest
  | rest => .other rest

def Target.read (s : Text) : Target :=
  match s.dropWhile isLinkGap with
  | [] => .missing
  | s =>
    match (Destination.read? s).filter fun (written, _) => Destination.isAllowed written with
    | none => .close s
    | some (_, after) =>
      let start := after.dropWhile isLinkGap
      match if start.length < after.length then Title.read? start else none with
      | some (_, rest) => .close (rest.dropWhile isLinkGap)
      | none => .close start

/-- The end of a link by reference: what follows it, if its label is defined. The label stands in
a second pair of brackets at `second`, or is the link text itself. Without any definition nothing
is looked for. -/
def reference? (scope : Scope) (measure : Measure) (place : Nat) (text after second : Text) :
    Reading (Option Text) := do
  if scope.labels.isEmpty then return none
  let isDefined (s : Text) := scope.labels.contains (Label.ofText s)
  match second with
  | '[' :: body =>
    match ← labelLength measure false 0 0 (place + 1) body with
    | some n =>
      let label := body.take n
      return if isDefined (if label.isEmpty then text else label) then some (body.drop (n + 1))
        else none
    | none => return if isDefined text then some after else none
  | _ => return if isDefined text then some after else none

def link? (scope : Scope) (measure : Measure) (place : Nat) (s : Text) :
    Reading (Option (Text × Nat)) := do
  let body := s.drop 1
  let some n ← labelLength measure true 0 0 (place + 1) body | return none
  let text := body.take n
  let after := body.drop (n + 1)
  let ending? ←
    match after with
    | '(' :: target =>
      match Target.read target with
      | .closed rest => pure (some rest)
      | .missing => pure none
      | .other rest =>
        let second := rest.drop 1
        reference? scope measure (place + (s.length - second.length)) text after second
    | _ => reference? scope measure (place + (s.length - after.length)) text after after
  return ending?.map fun rest => (text, s.length - rest.length)

def image? (scope : Scope) (measure : Measure) (place : Nat) (s : Text) :
    Reading (Option (Text × Nat)) := do
  let body := s.drop 2
  let some n ← labelLength measure false 0 0 (place + 2) body | return none
  let text := body.take n
  let after := body.drop (n + 1)
  let ending? ←
    match after with
    | '(' :: target =>
      match Target.read target with
      | .closed rest => pure (some rest)
      | _ => pure none
    | _ => reference? scope measure (place + (s.length - after.length)) text after after
  return ending?.map fun rest => (text, s.length - rest.length)

def token? (scope : Scope) (measure : Measure) (place : Nat) (s : Text) :
    Reading (Option (Token × Nat)) := do
  match s with
  | '\n' :: _ => return some (newline s)
  | '\\' :: _ => return escape? s
  | '`' :: _ => return some (← code scope place s)
  | '[' :: _ => return (← link? scope measure place s).map fun (text, n) => (.link text, n)
  | '!' :: '[' :: _ => return (← image? scope measure place s).map fun (text, n) => (.image text, n)
  | '<' :: _ => return (address? s).or (html? scope place s)
  | '&' :: _ => return entity? s
  | _ => return none

def beginsToken (c : Char) : Bool :=
  ['\n', '\\', '`', '[', '!', '<', '&'].contains c

def measureOnce (place : Nat) (measure : Reading Nat) : Reading Nat := do
  match (← get).lengths.lookup place with
  | some n => return n
  | none =>
    let n ← measure
    modify fun memory => { memory with lengths := (place, n) :: memory.lengths }
    return n

/-- The length of the token at a place, with link texts measured to some depth. -/
def measure (scope : Scope) : (depth : Nat) → Measure
  | 0, place, s => measureOnce place (pure (s.length + 1))
  | depth + 1, place, s => do
    if s.head?.any beginsToken then
      measureOnce place do
        let token ← token? scope (measure scope depth) place s
        return (token.map (·.2)).getD 1
    else return ((← get).lengths.lookup place).getD 1

def maxDepth : Nat := 20

/-- Puts plain text, held in reverse, in front of other parts. -/
def withText (pending : Text) (rest : List Part) : List Part :=
  if pending.isEmpty then rest else .pieces [.text pending.reverse] :: rest

def enclosed (what : Enclosure) (content : List Inline) : List Inline :=
  .opens what :: content ++ [.closes what]

/-- Reads content into parts. `inside` reads the content of links and images that begins at a
place, `before` is the character before the place, `hop` counts the characters of the token just
read, and `pending` is plain text not yet put out, in reverse. -/
def parts (scope : Scope) (depth : Nat)
    (inside : Enclosure → Nat → Text → Reading (List Inline)) :
    (before : Char) → (hop place : Nat) → (pending : Text) → Text → Reading (List Part)
  | _, _, _, pending, [] => return withText pending []
  | _, hop + 1, place, pending, c :: rest =>
    parts scope depth inside c hop (place + 1) pending rest
  | before, 0, place, pending, c :: rest => do
    let go (hop : Nat) (pending : Text) :=
      parts scope depth inside c hop (place + 1) pending rest
    if c == '*' || c == '_' then
      let length := (rest.takeWhile (· == c)).length + 1
      let run := Run.between before c length ((rest.drop (length - 1)).headD ' ')
      return withText pending (.run run :: (← go (length - 1) []))
    else
      match ← token? scope (measure scope depth) place (c :: rest) with
      | none => go 0 (c :: pending)
      | some (.literal s, n) => go (n - 1) (s.reverse ++ pending)
      | some (.piece p, n) => return withText pending (.pieces [p] :: (← go (n - 1) []))
      | some (.newline, n) =>
        let kept := pending.dropWhile (· == ' ')
        let piece := if kept.length + 2 ≤ pending.length then .hardBreak else .softBreak
        return withText kept (.pieces [piece] :: (← go (n - 1) []))
      | some (.address shown, n) =>
        return withText pending (.pieces (enclosed .link [.text shown]) :: (← go (n - 1) []))
      | some (.link content, n) =>
        let inner ← inside .link (place + 1) content
        return withText pending (.pieces (enclosed .link inner) :: (← go (n - 1) []))
      | some (.image content, n) =>
        let inner ← inside .image (place + 2) content
        return withText pending (.pieces (enclosed .image inner) :: (← go (n - 1) []))

/-- Reads content whose links and images nest at most `nesting` deep, from a place on. The content
of a link goes on where the link stands; the description of an image is read on its own. -/
def readNested :
    (nesting depth : Nat) → Scope → (before : Char) → (place : Nat) → Text → Reading (List Inline)
  | 0, _, _, _, _, _ => return []
  | nesting + 1, depth, scope, before, place, s => do
    let inside : Enclosure → Nat → Text → Reading (List Inline)
      | .image, _, source =>
        return ((readNested nesting maxDepth { scope with source } ' ' 0 source).run' {})
      | _, place, content => readNested nesting (depth - 1) scope '[' place content
    return Emphasis.settle (← parts scope depth inside before 0 place [] s)

/-- Reads content, given the labels that are defined. What nests in content is shorter than it. -/
def read (labels : List Text) (source : Text) : List Inline :=
  Inline.joined 0
    ((readNested (source.length + 1) maxDepth { labels, source } ' ' 0 source).run {}).run.1

end DocTree.Markdown.Content
