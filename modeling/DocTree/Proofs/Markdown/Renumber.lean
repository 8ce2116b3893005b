import DocTree.Markdown.Page

/-!
# Line numbers

Reading looks at the number of no line, it only hands it on to the block that begins there. So lines
with other numbers are read as the same blocks with those numbers.
-/
namespace DocTree.Markdown

def Line.renumber (g : Nat → Nat) (l : Line) : Line :=
  { l with index := g l.index }

def Block.renumber {α : Type} (g : Nat → Nat) (b : Block α) : Block α :=
  { b with index := g b.index }

@[simp] theorem Block.kind_renumber {α : Type} (g : Nat → Nat) (b : Block α) :
    (b.renumber g).kind = b.kind := rfl

@[simp] theorem Block.index_renumber {α : Type} (g : Nat → Nat) (b : Block α) :
    (b.renumber g).index = g b.index := rfl

section

variable (g : Nat → Nat) (f : Frame) (l : Line)

@[simp] theorem Line.index_renumber : (l.renumber g).index = g l.index := rfl

@[simp] theorem Line.content_renumber : (l.renumber g).content = l.content := rfl

@[simp] theorem Line.indent_renumber : (l.renumber g).indent = l.indent := rfl

@[simp] theorem Line.isEmpty_renumber : (l.renumber g).isEmpty = l.isEmpty := rfl

@[simp] theorem Line.unindented_renumber (width : Nat) :
    (l.renumber g).unindented width = l.unindented width := rfl

@[simp] theorem Line.behind_renumber (width indent : Nat) :
    (l.renumber g).behind width indent = (l.behind width indent).renumber g := rfl

@[simp] theorem Line.quoted?_renumber :
    (l.renumber g).quoted? = l.quoted?.map (Line.renumber g) := by
  unfold Line.quoted?
  rw [content_renumber]
  split
  · split <;> rfl
  · rfl

@[simp] theorem Frame.isCode_renumber : f.isCode (l.renumber g) = f.isCode l := rfl

@[simp] theorem Fence.of?_renumber : Fence.of? f (l.renumber g) = Fence.of? f l := rfl

@[simp] theorem Fence.isClosedBy_renumber (fence : Fence) :
    fence.isClosedBy f (l.renumber g) = fence.isClosedBy f l := rfl

@[simp] theorem isRule_renumber : isRule f (l.renumber g) = isRule f l := rfl

@[simp] theorem heading?_renumber : heading? f (l.renumber g) = heading? f l := rfl

@[simp] theorem underline?_renumber : underline? (l.renumber g) = underline? l := rfl

@[simp] theorem listStart?_renumber (interrupting : Bool) :
    listStart? interrupting f (l.renumber g) = listStart? interrupting f l := rfl

@[simp] theorem html?_renumber : html? f (l.renumber g) = html? f l := rfl

@[simp] theorem interrupts_renumber (what : Interrupted) :
    interrupts what f (l.renumber g) = interrupts what f l := rfl

@[simp] theorem nextMarker?_renumber (m : ListMarker) :
    nextMarker? f m (l.renumber g) = nextMarker? f m l := rfl

end

section

variable (g : Nat → Nat) (f : Frame) (lines : List Line)

@[simp] theorem codeLines_renumber : codeLines f (lines.map (Line.renumber g)) =
    codeLines f lines := by
  induction lines with
  | nil => rfl
  | cons l rest ih =>
    rw [List.map_cons, codeLines, codeLines, ih]
    rfl

@[simp] theorem fenceLines_renumber (fence : Fence) :
    fenceLines f fence (lines.map (Line.renumber g)) = fenceLines f fence lines := by
  induction lines with
  | nil => rfl
  | cons l rest ih =>
    rw [List.map_cons, fenceLines, fenceLines, ih]
    rfl

@[simp] theorem htmlLines_renumber (kind : Tag.HtmlKind) :
    htmlLines f kind (lines.map (Line.renumber g)) = htmlLines f kind lines := by
  induction lines with
  | nil => rfl
  | cons l rest ih =>
    rw [List.map_cons, htmlLines, htmlLines, ih]
    rfl

@[simp] theorem paragraphLines_renumber (what : Interrupted) :
    paragraphLines what f (lines.map (Line.renumber g)) = paragraphLines what f lines := by
  induction lines with
  | nil => rfl
  | cons l rest ih =>
    rw [List.map_cons, paragraphLines, paragraphLines, ih]
    rfl

@[simp] theorem underlined?_renumber : underlined? f (lines.map (Line.renumber g)) =
    underlined? f lines := by
  induction lines with
  | nil => rfl
  | cons l rest ih =>
    rw [List.map_cons, underlined?, underlined?, ih]
    rfl

@[simp] theorem quoteLines_renumber (emptyBefore : Bool) :
    quoteLines f emptyBefore (lines.map (Line.renumber g)) =
      (quoteLines f emptyBefore lines).map (Line.renumber g) := by
  induction lines generalizing emptyBefore with
  | nil => rfl
  | cons l rest ih =>
    simp only [List.map_cons, quoteLines, Line.isEmpty_renumber, Line.indent_renumber,
      Line.quoted?_renumber, interrupts_renumber]
    by_cases hempty : l.isEmpty
    · simp [hempty]
    · rw [if_neg hempty, if_neg hempty]
      by_cases hindent : (f.indent : Int) ≤ l.indent
      · cases hquoted : l.quoted? with
        | some inner => simp [hindent, ih]
        | none =>
          by_cases hstop : emptyBefore || interrupts .quote f l
          · simp [hindent, hstop]
          · simp [hindent, hstop, ih, Line.renumber]
      · by_cases hstop : emptyBefore || interrupts .quote f l
        · simp [hindent, hstop]
        · simp [hindent, hstop, ih, Line.renumber]

@[simp] theorem map_content_renumber : (lines.map (Line.renumber g)).map Line.content =
    lines.map Line.content := by
  simp [Function.comp_def]

@[simp] theorem paragraphText_renumber : paragraphText f (lines.map (Line.renumber g)) =
    paragraphText f lines := by
  simp [paragraphText, Function.comp_def]

@[simp] theorem htmlText_renumber : htmlText f (lines.map (Line.renumber g)) =
    htmlText f lines := by
  simp [htmlText, Function.comp_def]

end

def renumbered (g : Nat → Nat) (r : List (Block Text) × Nat) : List (Block Text) × Nat :=
  (r.1.map (Block.renumber g), r.2)

/-- A reader hands the numbers of lines on to the blocks. -/
def Reader.HandsOn (read : Reader) : Prop :=
  ∀ g f lines, read f (lines.map (Line.renumber g)) = renumbered g (read f lines)

section

variable {quote item : Reader}

theorem readItem_renumber (hitem : item.HandsOn) (g : Nat → Nat) (f : Frame) (m : ListMarker)
    (l : Line) (rest : List Line) :
    readItem item f m (l.renumber g) (rest.map (Line.renumber g)) =
      renumbered g (readItem item f m l rest) := by
  have hhead : (rest.map (Line.renumber g)).head?.all Line.isEmpty =
      rest.head?.all Line.isEmpty := by
    cases rest <;> rfl
  simp only [readItem, Line.content_renumber, Line.indent_renumber, Line.behind_renumber, hhead]
  split
  · simp [renumbered]
  · exact hitem g _ (_ :: rest)

theorem readItems_renumber (hitem : item.HandsOn) (g : Nat → Nat) (f : Frame) (m : ListMarker)
    (owned : Nat) (lines : List Line) :
    readItems item f m owned (lines.map (Line.renumber g)) =
      renumbered g (readItems item f m owned lines) := by
  induction lines generalizing owned with
  | nil => cases owned <;> rfl
  | cons l rest ih =>
    cases owned with
    | succ owned => simp [readItems, ih, renumbered]
    | zero =>
      rw [List.map_cons, readItems, readItems, nextMarker?_renumber]
      cases nextMarker? f m l with
      | none => rfl
      | some next => simp [readItem_renumber hitem, ih, renumbered, Block.renumber]

theorem readBlock_renumber (hquote : quote.HandsOn) (hitem : item.HandsOn) (g : Nat → Nat)
    (f : Frame) (l : Line) (rest : List Line) :
    readBlock quote item f (l.renumber g) (rest.map (Line.renumber g)) =
      renumbered g (readBlock quote item f l rest) := by
  have hlines : ∀ n, l.renumber g :: (rest.map (Line.renumber g)).take n =
      (l :: rest.take n).map (Line.renumber g) := by
    intro n
    simp
  simp only [readBlock, Frame.isCode_renumber, Fence.of?_renumber, Line.quoted?_renumber,
    isRule_renumber, listStart?_renumber, paragraphLines_renumber, hlines,
    map_content_renumber, html?_renumber, heading?_renumber, underlined?_renumber, codeLines_renumber, fenceLines_renumber,
    htmlLines_renumber, Line.content_renumber, paragraphText_renumber, htmlText_renumber]
  split
  · rfl
  cases Fence.of? f l with
  | some fence => rfl
  | none =>
  dsimp only
  cases l.quoted? with
  | some first =>
    have := hquote g ⟨0, f.list⟩ (first :: quoteLines f first.isEmpty rest)
    rw [List.map_cons] at this
    simp [this, renumbered, Block.renumber]
  | none =>
  dsimp only [Option.map_none]
  split
  · rfl
  cases listStart? false f l with
  | some m =>
    simp [readItem_renumber hitem, readItems_renumber hitem, renumbered, Block.renumber]
  | none =>
  dsimp only
  cases Definition.read? (List.intercalate ['\n']
      ((l :: rest.take (paragraphLines .quote f rest)).map Line.content)) with
  | some definition => rfl
  | none =>
  dsimp only
  cases html? f l with
  | some kind => rfl
  | none =>
  dsimp only
  cases heading? f l with
  | some heading => rfl
  | none =>
  dsimp only
  cases underlined? f rest with
  | some underline => rfl
  | none => rfl

theorem readBlocks_renumber (hquote : quote.HandsOn) (hitem : item.HandsOn) (g : Nat → Nat)
    (f : Frame) (owned : Nat) (lines : List Line) :
    readBlocks quote item f owned (lines.map (Line.renumber g)) =
      renumbered g (readBlocks quote item f owned lines) := by
  induction lines generalizing owned with
  | nil => cases owned <;> rfl
  | cons l rest ih =>
    cases owned with
    | succ owned => simp [readBlocks, ih, renumbered]
    | zero =>
      rw [List.map_cons, readBlocks, readBlocks, Line.isEmpty_renumber, Line.indent_renumber]
      split
      · simp [ih, renumbered]
      split
      · rfl
      · simp [readBlock_renumber hquote hitem, ih, renumbered]

end

theorem passOver_handsOn : passOver.HandsOn := by
  intro g f lines
  have hdrop : (lines.map (Line.renumber g)).dropWhile Line.isEmpty =
      (lines.dropWhile Line.isEmpty).map (Line.renumber g) := by
    rw [List.dropWhile_map]
    rfl
  rw [passOver, passOver, hdrop, List.length_map]
  cases lines.dropWhile Line.isEmpty with
  | nil => rfl
  | cons l rest =>
    simp only [List.map_cons, Line.indent_renumber, List.length_map]
    split <;> rfl

theorem reader_handsOn (depth : Nat) : (reader depth).HandsOn := by
  induction depth using reader.induct with
  | case1 => exact passOver_handsOn
  | case2 => exact fun g f => readBlocks_renumber passOver_handsOn passOver_handsOn g f 0
  | case3 depth ih₁ ih₂ => exact fun g f => readBlocks_renumber ih₁ ih₂ g f 0

end DocTree.Markdown
