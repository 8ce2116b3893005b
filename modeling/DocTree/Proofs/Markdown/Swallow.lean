import DocTree.Proofs.Markdown.Cut

/-!
# What goes on over a line that cuts

A line that cuts ends whatever stands above it, except for code between fences, raw HTML and a
container nested too deep to be read. So what is read of some lines does not depend on which line
that cuts follows them, and on what comes after it: either all of them are read as if nothing
followed, or the line is passed over together with the block above it.
-/
namespace DocTree.Markdown

/-- The block without what its raw HTML says. -/
def Block.mute (b : Block Text) : Block Text :=
  match b.kind with
  | .html _ => ⟨b.index, .html []⟩
  | _ => b

/-- Two counts of lines that agree on the first `n`; the second may go on over a gap after them. -/
structure SameUse (n gap used used' : Nat) : Prop where
  le : used ≤ n
  le' : used' ≤ n + gap
  min_eq : min used' n = used

theorem SameUse.refl {n used : Nat} (gap : Nat) (h : used ≤ n) : SameUse n gap used used :=
  ⟨h, by omega, by omega⟩

/-- So many lines are read as if nothing followed them, except for empty lines. -/
structure ReadApart (n : Nat) (gap : List Line) (alone followed : List (Block Text) × Nat) :
    Prop where
  blocks : followed.1.map Block.mute = alone.1.map Block.mute
  exact : gap = [] → followed.1 = alone.1
  use : SameUse n gap.length alone.2 followed.2

/-- What is read of so many lines goes on over a line that cuts, in a container to the end. -/
structure Swallows (inside : Prop) (n : Nat) (gap tail : List Line)
    (alone followed : List (Block Text) × Nat) : Prop where
  blocks : followed.1.map Block.mute = alone.1.map Block.mute
  use : alone.2 = n
  past : n + gap.length < followed.2
  all : inside → followed.2 = n + tail.length

theorem Tail.length_lt {f : Frame} {gap tail : List Line} (h : Tail f gap tail) :
    gap.length < tail.length := by
  obtain ⟨-, c, rest, rfl, -⟩ := h
  simp

theorem ReadApart.leaf {n used used' : Nat} {gap : List Line} (blocks : List (Block Text))
    (h : SameUse n gap.length used used') : ReadApart n gap (blocks, used) (blocks, used') :=
  ⟨rfl, fun _ => rfl, h⟩

theorem SameUse.exists_succ {n gap used used' : Nat}
    (h : SameUse (n + 1) gap (used + 1) used') :
    ∃ more, used' = more + 1 ∧ SameUse n gap used more := by
  obtain ⟨hle, hle', hmin⟩ := h
  exact ⟨used' - 1, by omega, by omega, by omega, by omega⟩

theorem SameUse.eq_zero {n gap used' : Nat} (h : SameUse (n + 1) gap 0 used') : used' = 0 := by
  have := h.min_eq
  omega

theorem SameUse.succ {n gap used used' : Nat} (h : SameUse n gap used used') :
    SameUse (n + 1) gap (used + 1) (used' + 1) := by
  obtain ⟨hle, hle', hmin⟩ := h
  exact ⟨by omega, by omega, by omega⟩

section

variable {inside : Prop} {n : Nat} {gap tail : List Line} {front front' : List (Block Text)}
  {alone followed : List (Block Text) × Nat}

/-- What follows a line and the blocks that begin on it is read apart. -/
theorem ReadApart.cons (hfront : front'.map Block.mute = front.map Block.mute)
    (hexact : gap = [] → front' = front) (h : ReadApart n gap alone followed) :
    ReadApart (n + 1) gap (front ++ alone.1, alone.2 + 1) (front' ++ followed.1, followed.2 + 1) :=
  ⟨by simp [hfront, h.blocks], fun hgap => by simp [hexact hgap, h.exact hgap], h.use.succ⟩

theorem ReadApart.skip (h : ReadApart n gap alone followed) :
    ReadApart (n + 1) gap (alone.1, alone.2 + 1) (followed.1, followed.2 + 1) :=
  ⟨h.blocks, h.exact, h.use.succ⟩

theorem Swallows.cons (hfront : front'.map Block.mute = front.map Block.mute)
    (h : Swallows inside n gap tail alone followed) :
    Swallows inside (n + 1) gap tail (front ++ alone.1, alone.2 + 1)
      (front' ++ followed.1, followed.2 + 1) := by
  obtain ⟨hblocks, huse, hpast, hall⟩ := h
  refine ⟨by simp [hfront, hblocks], by simp [huse], by simp; omega, fun hinside => ?_⟩
  have := hall hinside
  simp
  omega

theorem Swallows.skip (h : Swallows inside n gap tail alone followed) :
    Swallows inside (n + 1) gap tail (alone.1, alone.2 + 1) (followed.1, followed.2 + 1) := by
  obtain ⟨hblocks, huse, hpast, hall⟩ := h
  refine ⟨hblocks, by simp [huse], by simp; omega, fun hinside => ?_⟩
  have := hall hinside
  simp
  omega

end

/-- A block that ends within some lines or goes on after them, to the next line left of its
container, ends before a line that cuts, or is at the left margin and goes on over it. -/
theorem sameUse_or_past {f : Frame} {count : List Line → Nat} (gap lines : List Line)
    (happend : ∀ lines, (∀ tail, count (lines ++ tail) = count lines) ∨
      ∀ tail, count (lines ++ tail) = lines.length + count tail)
    (hle : ∀ lines, count lines ≤ lines.length)
    (hleft : ∀ c rest, c.Cuts → 0 < f.indent → count (c :: rest) = 0)
    (hmargin : ∀ c rest, c.Cuts → f.indent = 0 → 0 < count (c :: rest)) :
    (∀ tail, Tail f gap tail →
      SameUse lines.length gap.length (count lines) (count (lines ++ tail))) ∨
    (f.indent = 0 ∧ ∀ tail, Tail f gap tail →
      count lines = lines.length ∧ lines.length + gap.length < count (lines ++ tail)) := by
  rcases happend lines with hends | hgoes
  · refine Or.inl fun tail _ => ?_
    rw [hends]
    exact SameUse.refl _ (hle lines)
  have hall : count lines = lines.length := by
    have := hgoes []
    have hnil := hle []
    simp at this hnil
    omega
  have hgap : ∀ c rest, count (lines ++ (gap ++ c :: rest)) =
      lines.length + count (gap ++ c :: rest) := fun c rest => hgoes _
  rcases happend gap with hends | hgoes'
  · refine Or.inl ?_
    rintro tail ⟨-, c, rest, rfl, -⟩
    have := hle gap
    rw [hgap, hends, hall]
    exact ⟨Nat.le_refl _, by omega, by omega⟩
  by_cases hindent : f.indent = 0
  · refine Or.inr ⟨hindent, ?_⟩
    rintro tail ⟨-, c, rest, rfl, hc, -⟩
    have := hmargin c rest hc hindent
    rw [hgap, hgoes']
    exact ⟨hall, by omega⟩
  · refine Or.inl ?_
    rintro tail ⟨-, c, rest, rfl, hc, -⟩
    rw [hgap, hgoes', hleft c rest hc (Nat.pos_of_ne_zero hindent), hall]
    exact ⟨Nat.le_refl _, by omega, by omega⟩

theorem fenceLines_sameUse_or_past (f : Frame) (fence : Fence) (gap lines : List Line) :
    (∀ tail, Tail f gap tail → SameUse lines.length gap.length (fenceLines f fence lines)
      (fenceLines f fence (lines ++ tail))) ∨
    (f.indent = 0 ∧ ∀ tail, Tail f gap tail → fenceLines f fence lines = lines.length ∧
      lines.length + gap.length < fenceLines f fence (lines ++ tail)) := by
  refine sameUse_or_past gap lines (fenceLines_append f fence) (fenceLines_le f fence) ?_ ?_
  · intro c rest hc hindent
    simp [fenceLines, hc.notEmpty, hc.margin, hindent]
  · intro c rest hc hindent
    simp only [fenceLines, hc.margin, hindent]
    split
    · simp_all
    · split <;> simp

theorem htmlLines_sameUse_or_past (f : Frame) (kind : Tag.HtmlKind) (gap lines : List Line) :
    (∀ tail, Tail f gap tail → SameUse lines.length gap.length (htmlLines f kind lines)
      (htmlLines f kind (lines ++ tail))) ∨
    (f.indent = 0 ∧ ∀ tail, Tail f gap tail → htmlLines f kind lines = lines.length ∧
      lines.length + gap.length < htmlLines f kind (lines ++ tail)) := by
  refine sameUse_or_past gap lines (htmlLines_append f kind) (htmlLines_le f kind) ?_ ?_
  · intro c rest hc hindent
    simp [htmlLines, hc.notEmpty, hc.margin, hindent]
  · intro c rest hc hindent
    simp only [htmlLines, hc.margin, hindent, hc.notEmpty]
    split
    · simp_all
    · split <;> simp

/-- A reader of containers stops at a line that cuts, unless it passes over everything. -/
structure Reader.Cut (read : Reader) : Prop where
  bounded : ∀ f lines, (read f lines).2 ≤ lines.length
  idle : ∀ {f gap tail}, 0 < f.indent → Tail f gap tail → read f tail = ([], gap.length)
  cut : ∀ {f lines} (gap), 0 < f.indent → (∀ x ∈ lines, x.Clean) →
    (∀ tail, Tail f gap tail →
      ReadApart lines.length gap (read f lines) (read f (lines ++ tail))) ∨
    ∀ tail, Tail f gap tail →
      Swallows True lines.length gap tail (read f lines) (read f (lines ++ tail))

theorem ListMarker.width_pos {s : Text} {m : ListMarker} (h : of? s = some m) : 0 < m.width := by
  unfold of? at h
  dsimp only at h
  split at h
  · cases h
  split at h
  · cases h
  split at h
  · split at h
    · cases h
      exact Nat.one_pos
    · cases h
  split at h
  · cases h
    exact Nat.succ_pos _
  · cases h

theorem listStart?_width {interrupting : Bool} {f : Frame} {l : Line} {m : ListMarker}
    (h : listStart? interrupting f l = some m) : 0 < m.width := by
  unfold listStart? at h
  split at h
  · cases h
  split at h
  · cases h
  · exact ListMarker.width_pos (Option.filter_eq_some_iff.mp h).1

theorem nextMarker?_width {f : Frame} {m n : ListMarker} {l : Line}
    (h : nextMarker? f m l = some n) : 0 < n.width := by
  unfold nextMarker? at h
  split at h
  · cases h
  · exact ListMarker.width_pos (Option.filter_eq_some_iff.mp h).1

def startsEmpty (m : ListMarker) (l : Line) : Bool :=
  (l.content.drop m.width).all Text.isGap

def gapWidth (m : ListMarker) (l : Line) : Nat :=
  blankWidth (l.indent.toNat + m.width + l.base) (l.content.drop m.width)

def itemFrame (f : Frame) (m : ListMarker) (l : Line) : Frame :=
  ⟨l.indent.toNat + m.width + if startsEmpty m l || 4 < gapWidth m l then 1 else gapWidth m l,
    some f.indent⟩

def itemLine (m : ListMarker) (l : Line) : Line :=
  l.behind m.width (l.indent.toNat + m.width + gapWidth m l)

theorem readItem_eq (item : Reader) (f : Frame) (m : ListMarker) (l : Line) (rest : List Line) :
    readItem item f m l rest =
      if startsEmpty m l && rest.head?.all Line.isEmpty then ([], 1 + (rest.take 1).length)
      else item (itemFrame f m l) (itemLine m l :: rest) := rfl

theorem itemFrame_indent_pos (f : Frame) {m : ListMarker} (l : Line) (hm : 0 < m.width) :
    0 < (itemFrame f m l).indent := by
  simp only [itemFrame]
  omega

/-- Nothing but blanks is left behind a marker with nothing but blanks after it. -/
theorem itemLine_isEmpty {m : ListMarker} {l : Line} (h : startsEmpty m l) :
    (itemLine m l).isEmpty := by
  have htake : (l.content.drop m.width).takeWhile Text.isGap = l.content.drop m.width :=
    List.takeWhile_eq_self_iff.mpr (List.all_eq_true.mp h)
  rw [Line.isEmpty, Line.content, itemLine, Line.behind, htake, Line.content, List.drop_drop]
  simp
  omega

section

variable {quote item : Reader} {f : Frame} {m : ListMarker} {gap : List Line}

theorem readItem_cut (gap : List Line) (hitem : item.Cut) {l : Line} {rest : List Line} (hm : 0 < m.width)
    (hclean : ∀ x ∈ l :: rest, x.Clean) :
    (∀ tail, Tail f gap tail → ReadApart (rest.length + 1) gap (readItem item f m l rest)
      (readItem item f m l (rest ++ tail))) ∨
    ∀ tail, Tail f gap tail → Swallows True (rest.length + 1) gap tail (readItem item f m l rest)
      (readItem item f m l (rest ++ tail)) := by
  have hinner := itemFrame_indent_pos f l hm
  have hlines : ∀ x ∈ itemLine m l :: rest, x.Clean := by
    intro x hx
    rcases List.mem_cons.mp hx with rfl | hx
    · exact (hclean l (by simp)).behind _ _
    · exact hclean x (by simp [hx])
  have hread := hitem.cut gap hinner hlines
  cases rest with
  | nil =>
    by_cases hempty : startsEmpty m l
    · refine Or.inl fun tail ht => ?_
      simp only [readItem_eq, hempty, List.nil_append]
      cases gap with
      | nil =>
        obtain ⟨c, more, rfl, hc, -⟩ := ht.exists_cut
        have hidle := hitem.idle hinner ((ht.inside hinner).cons (itemLine_isEmpty hempty))
        simp only [List.head?_nil, List.head?_cons, Option.all_some, hc.notEmpty]
        rw [hidle]
        exact ReadApart.leaf _ (SameUse.refl _ (by simp))
      | cons e gap =>
        obtain ⟨he, more, rfl, -⟩ := ht.exists_cons
        simp only [List.head?_nil, List.head?_cons, Option.all_some, he]
        exact ReadApart.leaf _ ⟨by simp, by simp; omega, by simp⟩
    · simp only [readItem_eq, hempty, List.nil_append, Bool.false_and, Bool.false_eq_true, if_false]
      exact hread.imp (fun h tail ht => h tail (ht.inside hinner))
        (fun h tail ht => h tail (ht.inside hinner))
  | cons r rest =>
    by_cases hempty : startsEmpty m l && r.isEmpty
    · refine Or.inl fun tail _ => ?_
      simp only [readItem_eq, List.cons_append, List.head?_cons, Option.all_some, hempty]
      exact ReadApart.leaf _ (SameUse.refl _ (by simp))
    · simp only [readItem_eq, List.cons_append, List.head?_cons, Option.all_some, hempty,
        Bool.false_eq_true, if_false]
      exact hread.imp (fun h tail ht => h tail (ht.inside hinner))
        (fun h tail ht => h tail (ht.inside hinner))

theorem readItems_next {l : Line} {next : ListMarker} (h : nextMarker? f m l = some next)
    (item : Reader) (rest : List Line) :
    readItems item f m 0 (l :: rest) =
      (⟨l.index, .item⟩ :: (readItem item f next l rest).1 ++
          (readItems item f m ((readItem item f next l rest).2 - 1) rest).1,
        (readItems item f m ((readItem item f next l rest).2 - 1) rest).2 + 1) := by
  rw [readItems, h]

theorem readItems_none {l : Line} (h : nextMarker? f m l = none) (item : Reader)
    (rest : List Line) : readItems item f m 0 (l :: rest) = ([], 0) := by
  rw [readItems, h]

theorem readItems_owned (item : Reader) (f : Frame) (m : ListMarker) (owned : Nat)
    (lines : List Line) (h : lines.length ≤ owned) :
    readItems item f m owned lines = ([], lines.length) := by
  induction lines generalizing owned with
  | nil => cases owned <;> rfl
  | cons l rest ih =>
    obtain ⟨owned, rfl⟩ : ∃ n, owned = n + 1 := ⟨owned - 1, by simp at h; omega⟩
    rw [readItems, ih _ (by simpa using h)]
    rfl

/-- No further item begins on empty lines or on the line that cuts after them. -/
theorem readItems_tail (item : Reader) {g : Frame} {tail : List Line} (ht : Tail g gap tail) {owned : Nat}
    (h : owned ≤ gap.length) :
    (readItems item f m owned tail).1 = [] ∧ (readItems item f m owned tail).2 ≤ gap.length := by
  have hnone : ∀ l, ListMarker.of? l.content = none → nextMarker? f m l = none := by
    intro l hl
    unfold nextMarker?
    split
    · rfl
    · rw [hl]
      rfl
  induction gap generalizing tail owned with
  | nil =>
    obtain ⟨c, rest, rfl, hc, -⟩ := ht.exists_cut
    obtain rfl : owned = 0 := by simpa using h
    rw [readItems_none (hnone c hc.noMarker)]
    exact ⟨rfl, Nat.le_refl _⟩
  | cons e gap ih =>
    obtain ⟨he, more, rfl, hmore⟩ := ht.exists_cons
    cases owned with
    | zero =>
      have hcontent : e.content = [] := List.isEmpty_iff.mp he
      rw [readItems_none (hnone e (by rw [hcontent]; rfl))]
      exact ⟨rfl, Nat.zero_le _⟩
    | succ owned =>
      obtain ⟨hblocks, hused⟩ := ih hmore (by simpa using h)
      exact ⟨hblocks, Nat.succ_le_succ hused⟩

theorem readItems_cut (gap : List Line) (hitem : item.Cut) {lines : List Line} (hclean : ∀ x ∈ lines, x.Clean)
    (owned : Nat) :
    (∀ tail, Tail f gap tail → ∀ owned', SameUse lines.length gap.length owned owned' →
      ReadApart lines.length gap (readItems item f m owned lines)
        (readItems item f m owned' (lines ++ tail))) ∨
    ∀ tail, Tail f gap tail → ∀ owned', SameUse lines.length gap.length owned owned' →
      Swallows True lines.length gap tail (readItems item f m owned lines)
        (readItems item f m owned' (lines ++ tail)) := by
  induction lines generalizing owned with
  | nil =>
    refine Or.inl fun tail ht owned' huse => ?_
    have howned : owned' ≤ gap.length := by simpa using huse.le'
    obtain ⟨hblocks, hused⟩ := readItems_tail item (f := f) (m := m) ht howned
    have halone : readItems item f m owned [] = ([], 0) := by cases owned <;> rfl
    rw [halone, List.nil_append]
    exact ⟨by rw [hblocks], fun _ => hblocks, by simp, by simpa using hused, by simp⟩
  | cons l rest ih =>
    have hrest : ∀ x ∈ rest, x.Clean := fun x hx => hclean x (by simp [hx])
    cases owned with
    | succ owned =>
      refine (ih hrest owned).imp (fun h tail ht owned' huse => ?_)
        (fun h tail ht owned' huse => ?_)
      · obtain ⟨more, rfl, hmore⟩ := huse.exists_succ
        exact (h tail ht more hmore).skip
      · obtain ⟨more, rfl, hmore⟩ := huse.exists_succ
        exact (h tail ht more hmore).skip
    | zero =>
      cases hnext : nextMarker? f m l with
      | none =>
        refine Or.inl fun tail _ owned' huse => ?_
        rw [huse.eq_zero, List.cons_append, readItems_none hnext, readItems_none hnext]
        exact ReadApart.leaf _ (SameUse.refl _ (Nat.zero_le _))
      | some next =>
        have hread := readItem_cut (f := f) gap hitem (nextMarker?_width hnext) hclean
        rcases hread with hread | hread
        · refine (ih hrest ((readItem item f next l rest).2 - 1)).imp
            (fun h tail ht owned' huse => ?_) (fun h tail ht owned' huse => ?_)
          all_goals
            obtain ⟨hblocks, hexact, hle, hle', hmin⟩ := hread tail ht
            have hmore := h tail ht ((readItem item f next l (rest ++ tail)).2 - 1)
              ⟨by omega, by omega, by omega⟩
            have hfront := congrArg (Block.mute ⟨l.index, .item⟩ :: ·) hblocks
            rw [← List.map_cons, ← List.map_cons] at hfront
            rw [huse.eq_zero, List.cons_append, readItems_next hnext, readItems_next hnext]
          · exact hmore.cons hfront fun hgap => by rw [hexact hgap]
          · exact hmore.cons hfront
        · refine Or.inr fun tail ht owned' huse => ?_
          obtain ⟨hblocks, hused, -, hall⟩ := hread tail ht
          have hall := hall trivial
          have htail := ht.length_lt
          rw [huse.eq_zero, List.cons_append, readItems_next hnext, readItems_next hnext]
          simp only [
            readItems_owned item f m ((readItem item f next l rest).2 - 1) rest (by omega),
            readItems_owned item f m ((readItem item f next l (rest ++ tail)).2 - 1) (rest ++ tail)
              (by simp; omega)]
          exact ⟨by simp [hblocks], by simp, by simp; omega, fun _ => by simp; omega⟩

end

/-- The line begins neither code nor a container nor a thematic break. -/
structure IsText (f : Frame) (l : Line) : Prop where
  notCode : f.isCode l = false
  notFence : Fence.of? f l = none
  notQuote : l.quoted? = none
  notRule : isRule f l = false
  notList : listStart? false f l = none

def readText (f : Frame) (l : Line) (rest : List Line) : List (Block Text) × Nat :=
  if let some definition := Definition.read? (List.intercalate ['\n']
      ((l :: rest.take (paragraphLines .quote f rest)).map Line.content)) then
    ([⟨l.index, .definition definition.label⟩], definition.lines - 1)
  else if let some kind := html? f l then
    let n := if kind.endsWith l.content then 0 else htmlLines f kind rest
    ([⟨l.index, .html (htmlText f (l :: rest.take n))⟩], n)
  else if let some (level, text) := heading? f l then ([⟨l.index, .heading level text⟩], 0)
  else if let some (n, level) := underlined? f rest then
    ([⟨l.index, .heading level (paragraphText f (l :: rest.take n))⟩], n + 1)
  else
    let n := paragraphLines .paragraph f rest
    ([⟨l.index, .paragraph (paragraphText f (l :: rest.take n))⟩], n)

theorem readBlock_text {f : Frame} {l : Line} (h : IsText f l) (quote item : Reader)
    (rest : List Line) : readBlock quote item f l rest = readText f l rest := by
  rw [readBlock, h.notCode, h.notFence, h.notQuote, h.notRule, h.notList]
  rfl

theorem readText_cut {f : Frame} {gap : List Line} {l : Line} {rest : List Line}
    (hclean : ∀ x ∈ l :: rest, x.Clean) :
    (∀ tail, Tail f gap tail →
      ReadApart rest.length gap (readText f l rest) (readText f l (rest ++ tail))) ∨
    ∀ tail, Tail f gap tail →
      Swallows (0 < f.indent) rest.length gap tail (readText f l rest)
        (readText f l (rest ++ tail)) := by
  have htake : ∀ tail n, n ≤ rest.length → (rest ++ tail).take n = rest.take n :=
    fun tail n hn => List.take_append_of_le_length hn
  have hparagraph := paragraphLines_le .paragraph f rest
  have hquote := paragraphLines_le .quote f rest
  simp only [readText]
  cases hdefinition : Definition.read? (List.intercalate ['\n']
      ((l :: rest.take (paragraphLines .quote f rest)).map Line.content)) with
  | some definition =>
    refine Or.inl fun tail ht => ?_
    simp only [paragraphLines_cut (by decide : Interrupted.quote ≠ .list) ht f, htake tail _ hquote,
      hdefinition]
    exact ReadApart.leaf _ (SameUse.refl _ (definition_lines_le hclean hdefinition))
  | none =>
  cases html? f l with
  | some kind =>
    by_cases hends : kind.endsWith l.content
    · refine Or.inl fun tail ht => ?_
      simp only [paragraphLines_cut (by decide : Interrupted.quote ≠ .list) ht f,
        htake tail _ hquote, hdefinition, hends, if_true]
      exact ReadApart.leaf _ (SameUse.refl _ (Nat.zero_le _))
    rcases htmlLines_sameUse_or_past f kind gap rest with huse | ⟨hmargin, hpast⟩
    · refine Or.inl fun tail ht => ?_
      simp only [paragraphLines_cut (by decide : Interrupted.quote ≠ .list) ht f,
        htake tail _ hquote, hdefinition, hends, Bool.false_eq_true, if_false]
      refine ⟨rfl, ?_, huse tail ht⟩
      rintro rfl
      obtain ⟨hle, hle', hmin⟩ := huse tail ht
      have hsame : htmlLines f kind (rest ++ tail) = htmlLines f kind rest := by
        simp at hle'
        omega
      rw [hsame, htake tail _ hle]
    · refine Or.inr fun tail ht => ?_
      obtain ⟨hall, hlt⟩ := hpast tail ht
      simp only [paragraphLines_cut (by decide : Interrupted.quote ≠ .list) ht f,
        htake tail _ hquote, hdefinition, hends, Bool.false_eq_true, if_false]
      exact ⟨rfl, hall, hlt, fun hinside => by omega⟩
  | none =>
  cases heading? f l with
  | some heading =>
    refine Or.inl fun tail ht => ?_
    simp only [paragraphLines_cut (by decide : Interrupted.quote ≠ .list) ht f, htake tail _ hquote,
      hdefinition]
    exact ReadApart.leaf _ (SameUse.refl _ (Nat.zero_le _))
  | none =>
  cases hunder : underlined? f rest with
  | some underline =>
    refine Or.inl fun tail ht => ?_
    have hlt := underlined?_lt hunder
    simp only [paragraphLines_cut (by decide : Interrupted.quote ≠ .list) ht f, htake tail _ hquote,
      hdefinition, underlined?_cut ht, hunder, htake tail _ hlt.le]
    exact ReadApart.leaf _ (SameUse.refl _ hlt)
  | none =>
    refine Or.inl fun tail ht => ?_
    simp only [paragraphLines_cut (by decide : Interrupted.quote ≠ .list) ht f, htake tail _ hquote,
      paragraphLines_cut (by decide : Interrupted.paragraph ≠ .list) ht f, htake tail _ hparagraph,
      hdefinition, underlined?_cut ht, hunder]
    exact ReadApart.leaf _ (SameUse.refl _ hparagraph)

section

variable {quote item : Reader} {f : Frame} {gap : List Line}

theorem readBlock_cut (gap : List Line) (hquote : ∀ f lines, (quote f lines).2 ≤ lines.length) (hitem : item.Cut)
    {l : Line} {rest : List Line} (hclean : ∀ x ∈ l :: rest, x.Clean) :
    (∀ tail, Tail f gap tail → ReadApart rest.length gap (readBlock quote item f l rest)
      (readBlock quote item f l (rest ++ tail))) ∨
    ∀ tail, Tail f gap tail → Swallows (0 < f.indent) rest.length gap tail
      (readBlock quote item f l rest) (readBlock quote item f l (rest ++ tail)) := by
  have hrest : ∀ x ∈ rest, x.Clean := fun x hx => hclean x (by simp [hx])
  by_cases hcode : f.isCode l
  · refine Or.inl fun tail ht => ?_
    simp only [readBlock, hcode, if_true, codeLines_cut ht f]
    exact ReadApart.leaf _ (SameUse.refl _ (codeLines_le f rest))
  cases hfence : Fence.of? f l with
  | some fence =>
    simp only [readBlock, hcode, hfence]
    refine (fenceLines_sameUse_or_past f fence gap rest).imp
      (fun huse tail ht => ReadApart.leaf _ (huse tail ht)) ?_
    rintro ⟨hmargin, hpast⟩ tail ht
    obtain ⟨hall, hlt⟩ := hpast tail ht
    exact ⟨rfl, hall, hlt, fun hinside => by omega⟩
  | none =>
  cases hquoted : l.quoted? with
  | some first =>
    refine Or.inl fun tail ht => ?_
    simp only [readBlock, hcode, hfence, hquoted, quoteLines_cut ht]
    refine ReadApart.leaf _ (SameUse.refl _ ?_)
    have hused := hquote ⟨0, f.list⟩ (first :: quoteLines f first.isEmpty rest)
    have hlen := quoteLines_length f first.isEmpty rest
    simp at hused
    omega
  | none =>
  by_cases hrule : isRule f l
  · refine Or.inl fun tail _ => ?_
    simp only [readBlock, hcode, hfence, hquoted, hrule]
    exact ReadApart.leaf _ (SameUse.refl _ (Nat.zero_le _))
  cases hlist : listStart? false f l with
  | some m =>
    have hblock : ∀ rest, readBlock quote item f l rest =
        (⟨l.index, if m.number.isSome then .orderedList else .bulletList⟩ :: ⟨l.index, .item⟩ ::
            (readItem item f m l rest).1 ++
            (readItems item f m ((readItem item f m l rest).2 - 1) rest).1,
          (readItems item f m ((readItem item f m l rest).2 - 1) rest).2) := by
      intro rest
      simp only [readBlock, hcode, hfence, hquoted, hrule, hlist]
      rfl
    simp only [hblock]
    have hread := readItem_cut (f := f) gap hitem (listStart?_width hlist) hclean
    rcases hread with hread | hread
    · refine (readItems_cut (f := f) (m := m) gap hitem hrest
        ((readItem item f m l rest).2 - 1)).imp (fun h tail ht => ?_) (fun h tail ht => ?_)
      all_goals
        obtain ⟨hblocks, hexact, hle, hle', hmin⟩ := hread tail ht
        have hmore := h tail ht ((readItem item f m l (rest ++ tail)).2 - 1)
          ⟨by omega, by omega, by omega⟩
      · refine ⟨by simp [hblocks, hmore.blocks], fun hgap => ?_, hmore.use⟩
        rw [hexact hgap, hmore.exact hgap]
      · exact ⟨by simp [hblocks, hmore.blocks], hmore.use, hmore.past,
          fun _ => hmore.all trivial⟩
    · refine Or.inr fun tail ht => ?_
      obtain ⟨hblocks, hused, -, hall⟩ := hread tail ht
      have hall := hall trivial
      have htail := ht.length_lt
      rw [readItems_owned item f m ((readItem item f m l rest).2 - 1) rest (by omega),
        readItems_owned item f m ((readItem item f m l (rest ++ tail)).2 - 1) (rest ++ tail)
          (by simp; omega)]
      exact ⟨by simp [hblocks], rfl, by simp; omega, fun _ => by simp⟩
  | none =>
    have htext : IsText f l := ⟨by simpa using hcode, hfence, hquoted, by simpa using hrule, hlist⟩
    simp only [readBlock_text htext]
    exact readText_cut hclean

theorem readBlocks_le (quote item : Reader) (f : Frame) (owned : Nat) (lines : List Line) :
    (readBlocks quote item f owned lines).2 ≤ lines.length := by
  induction lines generalizing owned with
  | nil => cases owned <;> simp [readBlocks]
  | cons l rest ih =>
    cases owned with
    | succ owned => simpa [readBlocks] using ih owned
    | zero =>
      rw [readBlocks]
      split
      · simpa using ih 0
      split
      · simp
      · simpa using ih _

theorem readBlocks_owned (quote item : Reader) (f : Frame) (owned : Nat) (lines : List Line)
    (h : lines.length ≤ owned) : readBlocks quote item f owned lines = ([], lines.length) := by
  induction lines generalizing owned with
  | nil => cases owned <;> rfl
  | cons l rest ih =>
    obtain ⟨owned, rfl⟩ : ∃ n, owned = n + 1 := ⟨owned - 1, by simp at h; omega⟩
    rw [readBlocks, ih _ (by simpa using h)]
    rfl

/-- Lines that a block owns are passed over. -/
theorem readBlocks_drop (quote item : Reader) (f : Frame) (owned : Nat) (lines : List Line) :
    (readBlocks quote item f owned lines).1 =
      (readBlocks quote item f 0 (lines.drop owned)).1 := by
  induction lines generalizing owned with
  | nil => cases owned <;> rfl
  | cons l rest ih =>
    cases owned with
    | succ owned => exact ih owned
    | zero => rfl

theorem readBlocks_empty {l : Line} (h : l.isEmpty) (quote item : Reader) (f : Frame)
    (rest : List Line) :
    readBlocks quote item f 0 (l :: rest) =
      ((readBlocks quote item f 0 rest).1, (readBlocks quote item f 0 rest).2 + 1) := by
  rw [readBlocks, if_pos h]

theorem readBlocks_left {l : Line} (h : l.isEmpty = false) {f : Frame} (hl : l.indent < f.indent)
    (quote item : Reader) (rest : List Line) :
    readBlocks quote item f 0 (l :: rest) = ([], 0) := by
  rw [readBlocks, h, if_neg (by simp), if_pos hl]

theorem readBlocks_block {l : Line} (h : l.isEmpty = false) {f : Frame}
    (hl : ¬ l.indent < f.indent) (quote item : Reader) (rest : List Line) :
    readBlocks quote item f 0 (l :: rest) =
      ((readBlock quote item f l rest).1 ++
          (readBlocks quote item f (readBlock quote item f l rest).2 rest).1,
        (readBlocks quote item f (readBlock quote item f l rest).2 rest).2 + 1) := by
  rw [readBlocks, h, if_neg (by simp), if_neg hl]

/-- In a container nothing is read of empty lines and a line that cuts after them. -/
theorem readBlocks_idle (hf : 0 < f.indent) {tail : List Line} (ht : Tail f gap tail) :
    readBlocks quote item f 0 tail = ([], gap.length) := by
  induction gap generalizing tail with
  | nil =>
    obtain ⟨c, rest, rfl, hc, -⟩ := ht.exists_cut
    exact readBlocks_left hc.notEmpty (by rw [hc.margin]; omega) quote item rest
  | cons e gap ih =>
    obtain ⟨he, more, rfl, hmore⟩ := ht.exists_cons
    rw [readBlocks_empty he, ih hmore]
    rfl

/-- It makes no difference which of the empty lines belong to the block before. -/
theorem readBlocks_gap {tail : List Line} (ht : Tail f gap tail) {owned : Nat}
    (h : owned ≤ gap.length) :
    readBlocks quote item f owned tail = readBlocks quote item f 0 tail := by
  induction gap generalizing tail owned with
  | nil => rw [show owned = 0 by simpa using h]
  | cons e gap ih =>
    obtain ⟨he, more, rfl, hmore⟩ := ht.exists_cons
    cases owned with
    | zero => rfl
    | succ owned => rw [readBlocks_empty he, readBlocks, ih hmore (by simpa using h)]

/-- All of some lines is read as if nothing followed, and then what follows. -/
structure ReadsOn (quote item : Reader) (f : Frame) (n : Nat) (gap tail : List Line)
    (alone followed : List (Block Text) × Nat) : Prop where
  blocks : followed.1.map Block.mute =
    (alone.1 ++ (readBlocks quote item f 0 tail).1).map Block.mute
  exact : gap = [] → followed.1 = alone.1 ++ (readBlocks quote item f 0 tail).1
  use : 0 < f.indent → SameUse n gap.length alone.2 followed.2

/-- What is read of some lines goes on over a line that cuts. Then reading goes on further down, in
a container with nothing. -/
structure PassesOn (quote item : Reader) (f : Frame) (n : Nat) (gap tail : List Line)
    (alone followed : List (Block Text) × Nat) : Prop where
  use : alone.2 = n
  blocks : ∃ past, gap.length < past ∧
    (0 < f.indent → past = tail.length ∧ followed.2 = n + tail.length) ∧
    followed.1.map Block.mute =
      (alone.1 ++ (readBlocks quote item f 0 (tail.drop past)).1).map Block.mute

variable {n : Nat} {tail : List Line} {front front' : List (Block Text)}
  {alone followed : List (Block Text) × Nat}

theorem ReadsOn.cons (hfront : front'.map Block.mute = front.map Block.mute)
    (hexact : gap = [] → front' = front) (h : ReadsOn quote item f n gap tail alone followed) :
    ReadsOn quote item f (n + 1) gap tail (front ++ alone.1, alone.2 + 1)
      (front' ++ followed.1, followed.2 + 1) := by
  refine ⟨?_, fun hgap => ?_, fun hf => (h.use hf).succ⟩
  · have := h.blocks
    simp only [List.map_append] at this
    simp [hfront, this]
  · rw [hexact hgap, h.exact hgap, List.append_assoc]

theorem ReadsOn.skip (h : ReadsOn quote item f n gap tail alone followed) :
    ReadsOn quote item f (n + 1) gap tail (alone.1, alone.2 + 1) (followed.1, followed.2 + 1) :=
  ⟨h.blocks, h.exact, fun hf => (h.use hf).succ⟩

theorem PassesOn.cons (hfront : front'.map Block.mute = front.map Block.mute)
    (h : PassesOn quote item f n gap tail alone followed) :
    PassesOn quote item f (n + 1) gap tail (front ++ alone.1, alone.2 + 1)
      (front' ++ followed.1, followed.2 + 1) := by
  obtain ⟨huse, past, hpast, hinside, hblocks⟩ := h
  refine ⟨by simp [huse], past, hpast, fun hf => ?_, ?_⟩
  · obtain ⟨hall, hfollowed⟩ := hinside hf
    exact ⟨hall, by simp; omega⟩
  · simp only [List.map_append] at hblocks
    simp [hfront, hblocks]

theorem PassesOn.skip (h : PassesOn quote item f n gap tail alone followed) :
    PassesOn quote item f (n + 1) gap tail (alone.1, alone.2 + 1) (followed.1, followed.2 + 1) := by
  obtain ⟨huse, past, hpast, hinside, hblocks⟩ := h
  refine ⟨by simp [huse], past, hpast, fun hf => ?_, hblocks⟩
  obtain ⟨hall, hfollowed⟩ := hinside hf
  exact ⟨hall, by simp; omega⟩

theorem readBlocks_cut (gap : List Line) (hquote : ∀ f lines, (quote f lines).2 ≤ lines.length) (hitem : item.Cut)
    {lines : List Line} (hclean : ∀ x ∈ lines, x.Clean) (owned : Nat) :
    (∀ tail, Tail f gap tail → ∀ owned', SameUse lines.length gap.length owned owned' →
      ReadsOn quote item f lines.length gap tail (readBlocks quote item f owned lines)
        (readBlocks quote item f owned' (lines ++ tail))) ∨
    ∀ tail, Tail f gap tail → ∀ owned', SameUse lines.length gap.length owned owned' →
      PassesOn quote item f lines.length gap tail (readBlocks quote item f owned lines)
        (readBlocks quote item f owned' (lines ++ tail)) := by
  induction lines generalizing owned with
  | nil =>
    refine Or.inl fun tail ht owned' huse => ?_
    have halone : readBlocks quote item f owned [] = ([], 0) := by cases owned <;> rfl
    rw [halone, List.nil_append, readBlocks_gap ht (by simpa using huse.le')]
    refine ⟨rfl, fun _ => rfl, fun hf => ?_⟩
    rw [readBlocks_idle hf ht]
    exact ⟨by simp, by simp, by simp⟩
  | cons l rest ih =>
    have hrest : ∀ x ∈ rest, x.Clean := fun x hx => hclean x (by simp [hx])
    cases owned with
    | succ owned =>
      refine (ih hrest owned).imp (fun h tail ht owned' huse => ?_)
        (fun h tail ht owned' huse => ?_)
      · obtain ⟨more, rfl, hmore⟩ := huse.exists_succ
        exact (h tail ht more hmore).skip
      · obtain ⟨more, rfl, hmore⟩ := huse.exists_succ
        exact (h tail ht more hmore).skip
    | zero =>
      cases hempty : l.isEmpty with
      | true =>
        refine (ih hrest 0).imp (fun h tail ht owned' huse => ?_)
          (fun h tail ht owned' huse => ?_)
        all_goals
          have hmore := h tail ht 0 (SameUse.refl _ (Nat.zero_le _))
          rw [huse.eq_zero, List.cons_append, readBlocks_empty hempty, readBlocks_empty hempty]
        · exact hmore.skip
        · exact hmore.skip
      | false =>
      by_cases hleft : l.indent < f.indent
      · refine Or.inl fun tail ht owned' huse => ?_
        have hf : 0 < f.indent := by
          have := (hclean l (by simp)).notBehind
          omega
        rw [huse.eq_zero, List.cons_append, readBlocks_left hempty hleft,
          readBlocks_left hempty hleft]
        have hnone : (readBlocks quote item f 0 tail).1 = [] := by rw [readBlocks_idle hf ht]
        exact ⟨by simp [hnone], fun _ => by simp [hnone], fun _ => SameUse.refl _ (Nat.zero_le _)⟩
      · rcases readBlock_cut (f := f) gap hquote hitem hclean with hread | hread
        · refine (ih hrest (readBlock quote item f l rest).2).imp
            (fun h tail ht owned' huse => ?_) (fun h tail ht owned' huse => ?_)
          all_goals
            obtain ⟨hblocks, hexact, hsame⟩ := hread tail ht
            have hmore := h tail ht _ hsame
            rw [huse.eq_zero, List.cons_append, readBlocks_block hempty hleft,
              readBlocks_block hempty hleft]
          · exact hmore.cons hblocks hexact
          · exact hmore.cons hblocks
        · refine Or.inr fun tail ht owned' huse => ?_
          obtain ⟨hblocks, hused, hpast, hall⟩ := hread tail ht
          rw [huse.eq_zero, List.cons_append, readBlocks_block hempty hleft,
            readBlocks_block hempty hleft,
            readBlocks_owned quote item f (readBlock quote item f l rest).2 rest (by omega)]
          refine ⟨by simp, (readBlock quote item f l (rest ++ tail)).2 - rest.length, by omega,
            fun hf => ?_, ?_⟩
          · have hwhole := hall hf
            rw [readBlocks_owned quote item f (readBlock quote item f l (rest ++ tail)).2
              (rest ++ tail) (by simp; omega)]
            exact ⟨by omega, by simp; omega⟩
          · rw [readBlocks_drop quote item f (readBlock quote item f l (rest ++ tail)).2,
              List.drop_append, List.drop_eq_nil_of_le (by omega)]
            simp [hblocks]

/-- A reader that reads one block after another stops at a line that cuts, unless it passes over
everything. -/
theorem readBlocks_reader_cut (hquote : ∀ f lines, (quote f lines).2 ≤ lines.length)
    (hitem : item.Cut) : Reader.Cut fun f => readBlocks quote item f 0 where
  bounded f lines := readBlocks_le quote item f 0 lines
  idle hf ht := readBlocks_idle hf ht
  cut {f lines} gap hf hclean := by
    refine (readBlocks_cut (f := f) gap hquote hitem hclean 0).imp
      (fun h tail ht => ?_) (fun h tail ht => ?_)
    · obtain ⟨hblocks, hexact, huse⟩ := h tail ht 0 (SameUse.refl _ (Nat.zero_le _))
      have hnone : (readBlocks quote item f 0 tail).1 = [] := by rw [readBlocks_idle hf ht]
      rw [hnone, List.append_nil] at hblocks hexact
      exact ⟨hblocks, hexact, huse hf⟩
    · obtain ⟨huse, past, hpast, hinside, hblocks⟩ :=
        h tail ht 0 (SameUse.refl _ (Nat.zero_le _))
      obtain ⟨rfl, hall⟩ := hinside hf
      have hnone : (readBlocks quote item f 0 (tail.drop tail.length)).1 = [] := by
        rw [List.drop_length]
        rfl
      rw [hnone, List.append_nil] at hblocks
      exact ⟨hblocks, huse, by omega, fun _ => hall⟩

end

theorem passOver_idle {f : Frame} {gap tail : List Line} (hf : 0 < f.indent)
    (ht : Tail f gap tail) : passOver f tail = ([], gap.length) := by
  obtain ⟨hgap, c, rest, rfl, hc, -⟩ := ht
  have hdrop : (gap ++ c :: rest).dropWhile Line.isEmpty = c :: rest := by
    rw [List.dropWhile_append_of_pos hgap, List.dropWhile_cons, hc.notEmpty]
    rfl
  have hleft : c.indent < f.indent := by
    rw [hc.margin]
    omega
  simp [passOver, hdrop, hleft]

theorem passOver_cut : passOver.Cut where
  bounded f lines := by
    unfold passOver
    split
    · exact Nat.le_refl _
    · split <;> simp
  idle hf ht := passOver_idle hf ht
  cut {f lines} gap hf _ := by
    cases hdrop : lines.dropWhile Line.isEmpty with
    | nil =>
      refine Or.inl fun tail ht => ?_
      have hempty : ∀ l ∈ lines, l.isEmpty := List.dropWhile_eq_nil_iff.mp hdrop
      have hmore : Tail f (lines ++ gap) (lines ++ tail) := by
        obtain ⟨hgap, c, rest, rfl, hc⟩ := ht
        refine ⟨?_, c, rest, by simp, hc⟩
        intro e he
        rcases List.mem_append.mp he with he | he
        · exact hempty e he
        · exact hgap e he
      rw [passOver_idle hf hmore]
      simp only [passOver, hdrop]
      exact ReadApart.leaf _ ⟨Nat.le_refl _, by simp, by simp⟩
    | cons l rest =>
      have hfollowed : ∀ tail, (lines ++ tail).dropWhile Line.isEmpty = l :: (rest ++ tail) := by
        intro tail
        rw [List.dropWhile_append, hdrop]
        simp
      by_cases hleft : l.indent < f.indent
      · refine Or.inl fun tail _ => ?_
        simp only [passOver, hdrop, hfollowed tail, hleft, if_true]
        have hsame : (lines ++ tail).length - ((rest ++ tail).length + 1) =
            lines.length - (rest.length + 1) := by
          simp
          omega
        rw [hsame]
        exact ReadApart.leaf _ (SameUse.refl _ (Nat.sub_le _ _))
      · refine Or.inr fun tail ht => ?_
        have hlt := ht.length_lt
        simp only [passOver, hdrop, hfollowed tail, hleft, if_false]
        exact ⟨rfl, rfl, by simp; omega, fun _ => by simp⟩

/-- Containers of any depth stop at a line that cuts, unless they pass over everything. -/
theorem reader_cut (depth : Nat) : (reader depth).Cut := by
  induction depth using reader.induct with
  | case1 => exact passOver_cut
  | case2 => exact readBlocks_reader_cut passOver_cut.bounded passOver_cut
  | case3 depth ih₁ ih₂ => exact readBlocks_reader_cut ih₁.bounded ih₂

end DocTree.Markdown
