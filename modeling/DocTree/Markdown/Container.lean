import DocTree.Markdown.Block
import DocTree.Markdown.Destination

/-!
# Reading blocks

The lines of a document are read into its blocks, container by container. A reader gets the lines
of its container to the end and tells how many of them belong to it; the lines after those are
read by the enclosing container as if nothing had happened. Containers nest to a fixed depth.
-/
namespace DocTree.Markdown

/-- Reads the blocks at the beginning of some lines: the blocks, and the number of lines used. -/
abbrev Reader := Frame → List Line → List (Block Text) × Nat

-- The next functions count the lines after the first that belong to a block.

/-- Indented code reaches to its last line that is not empty. -/
def codeLines (f : Frame) : List Line → Nat
  | [] => 0
  | l :: rest =>
    if l.isEmpty then
      match codeLines f rest with
      | 0 => 0
      | n + 1 => n + 2
    else if f.isCode l then codeLines f rest + 1
    else 0

/-- Fenced code reaches to the fence that closes it, or to the end of its container. -/
def fenceLines (f : Frame) (fence : Fence) : List Line → Nat
  | [] => 0
  | l :: rest =>
    if !l.isEmpty && l.indent < f.indent then 0
    else if fence.isClosedBy f l then 1
    else fenceLines f fence rest + 1

def htmlLines (f : Frame) (kind : Tag.HtmlKind) : List Line → Nat
  | [] => 0
  | l :: rest =>
    if !l.isEmpty && l.indent < f.indent then 0
    else if kind.endsWith l.content then if l.isEmpty then 0 else 1
    else htmlLines f kind rest + 1

/-- A paragraph goes on while no line is empty or begins another block. Lines indented like code
and lines that only continue a paragraph inside a block quote begin none. -/
def paragraphLines (what : Interrupted) (f : Frame) : List Line → Nat
  | [] => 0
  | l :: rest =>
    if l.isEmpty then 0
    else if f.isCode l || l.indent < 0 || !interrupts what f l then paragraphLines what f rest + 1
    else 0

/-- The text lines between the first line of an underlined heading and its underline, and the
level. -/
def underlined? (f : Frame) : List Line → Option (Nat × Nat)
  | [] => none
  | l :: rest =>
    if l.isEmpty then none
    else
      match if f.isCode l || l.indent < f.indent then none else underline? l with
      | some level => some (0, level)
      | none =>
        if f.isCode l || l.indent < 0 || !interrupts .paragraph f l then
          (underlined? f rest).map fun (n, level) => (n + 1, level)
        else none

/-- The lines of a block quote after its first, as they look inside it. A line without a marker
belongs to it if it can continue a paragraph. -/
def quoteLines (f : Frame) (emptyBefore : Bool) : List Line → List Line
  | [] => []
  | l :: rest =>
    if l.isEmpty then []
    else
      match if (f.indent : Int) ≤ l.indent then l.quoted? else none with
      | some inner => inner :: quoteLines f inner.isEmpty rest
      | none =>
        if emptyBefore || interrupts .quote f l then []
        else { l with indent := -1 } :: quoteLines f emptyBefore rest

def paragraphText (f : Frame) (lines : List Line) : Text :=
  Text.trim Text.isMargin (List.intercalate ['\n'] (lines.map (·.unindented f.indent)))

/-- The lines of an HTML block as they are written, without the breaks at the end. -/
def htmlText (f : Frame) (lines : List Line) : Text :=
  ((List.intercalate ['\n'] (lines.map (·.unindented f.indent))).reverse.dropWhile
    (· == '\n')).reverse

/-- Reads a list item whose first line has a marker. An item that begins with two empty lines has
no content. -/
def readItem (item : Reader) (f : Frame) (m : ListMarker) (l : Line) (rest : List Line) :
    List (Block Text) × Nat :=
  let after := l.content.drop m.width
  let start := l.indent.toNat + m.width
  let width := blankWidth (start + l.base) after
  let empty := after.all Text.isGap
  if empty && rest.head?.all Line.isEmpty then ([], 1 + (rest.take 1).length)
  else
    let inner : Frame := ⟨start + if empty || 4 < width then 1 else width, some f.indent⟩
    item inner (l.behind m.width (start + width) :: rest)

def nextMarker? (f : Frame) (m : ListMarker) (l : Line) : Option ListMarker :=
  if l.indent < f.indent || f.isCode l || interrupts .list f l then none
  else (ListMarker.of? l.content).filter m.isLike

/-- Reads the further items of a list. The first argument after the marker counts the lines that
the item before still owns. -/
def readItems (item : Reader) (f : Frame) (m : ListMarker) :
    Nat → List Line → List (Block Text) × Nat
  | _, [] => ([], 0)
  | owned + 1, _ :: rest =>
    let (blocks, n) := readItems item f m owned rest
    (blocks, n + 1)
  | 0, l :: rest =>
    match nextMarker? f m l with
    | none => ([], 0)
    | some next =>
      let (inner, used) := readItem item f next l rest
      let (blocks, n) := readItems item f m (used - 1) rest
      (⟨l.index, .item⟩ :: inner ++ blocks, n + 1)

def readBlock (quote item : Reader) (f : Frame) (l : Line) (rest : List Line) :
    List (Block Text) × Nat :=
  if f.isCode l then ([⟨l.index, .code⟩], codeLines f rest)
  else if let some fence := Fence.of? f l then ([⟨l.index, .fence⟩], fenceLines f fence rest)
  else if let some first := l.quoted? then
    let (inner, used) := quote ⟨0, f.list⟩ (first :: quoteLines f first.isEmpty rest)
    (⟨l.index, .quote⟩ :: inner, used - 1)
  else if isRule f l then ([⟨l.index, .rule⟩], 0)
  else if let some m := listStart? false f l then
    let (inner, used) := readItem item f m l rest
    let (blocks, n) := readItems item f m (used - 1) rest
    let kind := if m.number.isSome then .orderedList else .bulletList
    (⟨l.index, kind⟩ :: ⟨l.index, .item⟩ :: inner ++ blocks, n)
  else if let some definition := Definition.read? (List.intercalate ['\n']
      ((l :: rest.take (paragraphLines .quote f rest)).map Line.content)) then
    ([⟨l.index, .definition definition.label⟩], definition.lines - 1)
  else if let some kind := html? f l then
    let n := if kind.endsWith l.content then 0 else htmlLines f kind rest
    ([⟨l.index, .html (htmlText f (l :: rest.take n))⟩], n)
  else if let some (level, text) := heading? f l then ([⟨l.index, .heading level text⟩], 0)
  else if let some (n, level) := underlined? f rest then
    ([⟨l.index, .heading level (paragraphText f (l :: rest.take n))⟩], n + 1)
  else
    let n := paragraphLines .paragraph f rest
    ([⟨l.index, .paragraph (paragraphText f (l :: rest.take n))⟩], n)

/-- Reads blocks one after another until a line stands too far left for the container. The first
argument counts the lines that the block before still owns. -/
def readBlocks (quote item : Reader) (f : Frame) : Nat → List Line → List (Block Text) × Nat
  | _, [] => ([], 0)
  | owned + 1, _ :: rest =>
    let (blocks, n) := readBlocks quote item f owned rest
    (blocks, n + 1)
  | 0, l :: rest =>
    if l.isEmpty then
      let (blocks, n) := readBlocks quote item f 0 rest
      (blocks, n + 1)
    else if l.indent < f.indent then ([], 0)
    else
      let (first, owned) := readBlock quote item f l rest
      let (blocks, n) := readBlocks quote item f owned rest
      (first ++ blocks, n + 1)

/-- Where containers nest too deep, the rest of the enclosing one is passed over. -/
def passOver : Reader := fun f lines =>
  match lines.dropWhile Line.isEmpty with
  | [] => ([], lines.length)
  | l :: rest =>
    if l.indent < f.indent then ([], lines.length - (rest.length + 1)) else ([], lines.length)

/-- The reader of a container that may hold so many more levels. A block quote takes one level, a
list takes two. -/
def reader : Nat → Reader
  | 0 => passOver
  | 1 => fun f => readBlocks passOver passOver f 0
  | depth + 2 => fun f => readBlocks (reader (depth + 1)) (reader depth) f 0

def maxDepth : Nat := 20

def blocks (s : Text) : List (Block Text) :=
  (reader maxDepth {} (Line.ofText s)).1

end DocTree.Markdown
