import DocTree.Proofs.Markdown.Guarded
import DocTree.Proofs.Markdown.Margin
import DocTree.Proofs.Markdown.Swallow

/-!
# Lists of links

How lines are read that hold a list of links, nested by their indentation. Whatever the indentation
and the texts of the links, they are read as lists, paragraphs and code, never as a heading or as
raw HTML; a line that cuts ends all of it. A link text may only be taken for a definition if it
holds a bracket with a colon behind it.
-/
namespace DocTree.Markdown

def labelEnd : Text := [']', ':']

theorem Label.closed?_eq_some {s label after : Text} (h : Label.closed? s = some (label, after)) :
    ∃ before, s = before ++ ']' :: after := by
  rw [Label.closed?_eq] at h
  exact ⟨label, (readGuarded_sound h).2⟩

theorem Definition.holds_labelEnd {s : Text} {d : Definition} (h : read? s = some d) :
    labelEnd <:+: s := by
  unfold Definition.read? at h
  simp only [Option.bind_eq_bind, Option.pure_def] at h
  split at h
  · rename_i body
    obtain ⟨⟨label, after⟩, hlabel, h⟩ := Option.bind_eq_some_iff.mp h
    dsimp only at h
    split at h
    · rename_i after
      obtain ⟨before, rfl⟩ := Label.closed?_eq_some hlabel
      exact ⟨'[' :: before, after, by simp [labelEnd]⟩
    · cases h
  · cases h

/-- A pair of characters is found on one side of a separator. -/
theorem pair_infix_append {a b c : Char} (ha : a ≠ c) (hb : b ≠ c) {s t : Text}
    (h : [a, b] <:+: s ++ c :: t) : [a, b] <:+: s ∨ [a, b] <:+: t := by
  induction s with
  | nil =>
    rcases List.infix_cons_iff.mp h with h | h
    · exact absurd (List.cons_prefix_cons.mp h).1 ha
    · exact Or.inr h
  | cons x s ih =>
    rcases List.infix_cons_iff.mp h with h | h
    · obtain ⟨rfl, hsecond⟩ := List.cons_prefix_cons.mp h
      cases s with
      | nil => exact absurd (List.cons_prefix_cons.mp hsecond).1 hb
      | cons y s =>
        obtain ⟨rfl, -⟩ := List.cons_prefix_cons.mp hsecond
        exact Or.inl (List.prefix_append [a, b] s).isInfix
    · exact (ih h).imp_left fun h => h.trans (List.suffix_cons x s).isInfix

theorem pair_infix_intercalate {a b c : Char} (ha : a ≠ c) (hb : b ≠ c) {parts : List Text}
    (h : [a, b] <:+: List.intercalate [c] parts) : ∃ p ∈ parts, [a, b] <:+: p := by
  induction parts with
  | nil => exact absurd h.length_le (by simp)
  | cons p parts ih =>
    cases parts with
    | nil => exact ⟨p, by simp, by simpa using h⟩
    | cons q parts =>
      rw [List.intercalate_cons_cons, List.append_assoc, List.singleton_append] at h
      rcases pair_infix_append ha hb h with h | h
      · exact ⟨p, by simp, h⟩
      · obtain ⟨r, hr, h⟩ := ih h
        exact ⟨r, by simp [hr], h⟩

structure LinkRow (l : Line) : Prop where
  clean : l.Clean
  near : l.indent ≤ 8
  content : ∃ rest, l.content = '-' :: ' ' :: '[' :: rest

structure LinkText (f : Frame) (l : Line) : Prop where
  clean : l.Clean
  inside : l.indent = f.indent
  content : ∃ rest, l.content = '[' :: rest

def Line.NoLabelEnd (l : Line) : Prop :=
  ¬ labelEnd <:+: l.raw

/-- What a list of links is read as: lists, paragraphs and code, and definitions if they are
allowed. -/
def Block.IsQuiet (definitions : Prop) (b : Block Text) : Prop :=
  match b.kind with
  | .paragraph _ | .code | .rule | .bulletList | .orderedList | .item => True
  | .definition _ => definitions
  | _ => False

def dash : ListMarker := ⟨'-', none, 1⟩

section

variable {l : Line}

theorem LinkRow.isEmpty (h : LinkRow l) : l.isEmpty = false := by
  obtain ⟨rest, hcontent⟩ := h.content
  rw [Line.isEmpty, hcontent]
  rfl

theorem LinkRow.marker (h : LinkRow l) : ListMarker.of? l.content = some dash := by
  obtain ⟨rest, hcontent⟩ := h.content
  rw [hcontent]
  rfl

theorem LinkRow.noFence (h : LinkRow l) (f : Frame) : Fence.of? f l = none := by
  obtain ⟨rest, hcontent⟩ := h.content
  exact Fence.of?_eq_none f (by simp [hcontent])

theorem LinkRow.noQuote (h : LinkRow l) : l.quoted? = none := by
  obtain ⟨rest, hcontent⟩ := h.content
  exact Line.quoted?_eq_none (by simp [hcontent])

theorem LinkRow.noRule (h : LinkRow l) (f : Frame) : isRule f l = false := by
  obtain ⟨rest, hcontent⟩ := h.content
  simp [isRule, hcontent, Text.isGap]

theorem LinkRow.noUnderline (h : LinkRow l) : underline? l = none := by
  obtain ⟨rest, hcontent⟩ := h.content
  simp [underline?, hcontent, Text.isGap]

/-- A row of links that is not code begins a list. -/
theorem LinkRow.listStart? (h : LinkRow l) {f : Frame} (hcode : f.isCode l = false)
    (hinside : ¬ l.indent < f.indent) : listStart? false f l = some dash := by
  simp [Markdown.listStart?, hcode, hinside, h.marker]

/-- The item of a row of links begins two columns behind the row. -/
theorem LinkRow.itemFrame_eq (h : LinkRow l) (f : Frame) :
    itemFrame f dash l = ⟨l.indent.toNat + 2, some f.indent⟩ := by
  obtain ⟨rest, hcontent⟩ := h.content
  simp [itemFrame, startsEmpty, gapWidth, dash, hcontent, blankWidth, Text.isGap]

theorem LinkRow.notStartsEmpty (h : LinkRow l) : startsEmpty dash l = false := by
  obtain ⟨rest, hcontent⟩ := h.content
  simp [startsEmpty, dash, hcontent, Text.isGap]

theorem LinkRow.itemLine (h : LinkRow l) (f : Frame) :
    LinkText (itemFrame f dash l) (Markdown.itemLine dash l) := by
  obtain ⟨rest, hcontent⟩ := h.content
  refine ⟨h.clean.behind _ _, ?_, rest, ?_⟩
  · rw [h.itemFrame_eq]
    simp [Markdown.itemLine, Line.behind, gapWidth, dash, hcontent, blankWidth]
    omega
  · have hraw : l.raw.drop l.lead = '-' :: ' ' :: '[' :: rest := hcontent
    have hmarker : (l.content.drop 1).takeWhile Text.isGap = [' '] := by
      simp [hcontent, Text.isGap]
    simp only [Markdown.itemLine, Line.behind, Line.content, dash]
    rw [show l.raw.drop l.lead = l.content from rfl, hmarker, Nat.add_assoc, ← List.drop_drop,
      hraw]
    rfl

theorem LinkText.isEmpty {f : Frame} (h : LinkText f l) : l.isEmpty = false := by
  obtain ⟨rest, hcontent⟩ := h.content
  rw [Line.isEmpty, hcontent]
  rfl

theorem LinkText.isText {f : Frame} (h : LinkText f l) : IsText f l := by
  obtain ⟨rest, hcontent⟩ := h.content
  have hmarker : ListMarker.of? l.content = none :=
    ListMarker.of?_eq_none (c := '[') (by simp [hcontent]) (by decide) (by decide)
  refine ⟨?_, Fence.of?_eq_none f (by simp [hcontent]), Line.quoted?_eq_none (by simp [hcontent]),
    isRule_eq_false f (by simp [hcontent]), listStart?_eq_none false f hmarker⟩
  simp only [Frame.isCode, h.inside, decide_eq_false_iff_not]
  omega

end

/-- No heading reaches over rows of links. -/
theorem underlined?_links {f : Frame} {rows tail : List Line} (hrows : ∀ l ∈ rows, LinkRow l)
    (ht : Tail f [] tail) : underlined? f (rows ++ tail) = none := by
  rw [underlined?_cut ht]
  induction rows with
  | nil => rfl
  | cons l rest ih =>
    have hl := hrows l (by simp)
    rw [underlined?, hl.noUnderline, ih fun x hx => hrows x (by simp [hx])]
    simp

/-- Rows of links read on their own, up to a line that cuts. -/
structure LinksRead (definitions : Prop) (n : Nat) (read : List (Block Text) × Nat) : Prop where
  quiet : ∀ b ∈ read.1, b.IsQuiet definitions
  use : read.2 ≤ n

section

variable {definitions : Prop} {f : Frame} {l : Line} {rows tail : List Line}

theorem readText_links (hl : LinkText f l) (hrows : ∀ x ∈ rows, LinkRow x) (ht : Tail f [] tail)
    (hlabels : definitions ∨ ∀ x ∈ l :: rows, x.NoLabelEnd) :
    LinksRead definitions rows.length (readText f l (rows ++ tail)) := by
  obtain ⟨rest, hcontent⟩ := hl.content
  have hclean : ∀ x ∈ l :: rows, x.Clean := by
    intro x hx
    rcases List.mem_cons.mp hx with rfl | hx
    · exact hl.clean
    · exact (hrows x hx).clean
  have htake : ∀ n, n ≤ rows.length → (rows ++ tail).take n = rows.take n :=
    fun n hn => List.take_append_of_le_length hn
  simp only [readText, paragraphLines_cut (by decide : Interrupted.quote ≠ .list) ht f,
    paragraphLines_cut (by decide : Interrupted.paragraph ≠ .list) ht f,
    htake _ (paragraphLines_le .quote f rows), htake _ (paragraphLines_le .paragraph f rows),
    html?_eq_none f (l := l) (by simp [hcontent]), heading?_eq_none f (l := l) (by simp [hcontent]),
    underlined?_links hrows ht]
  cases hdefinition : Definition.read? (List.intercalate ['\n']
      ((l :: rows.take (paragraphLines .quote f rows)).map Line.content)) with
  | none => exact ⟨by simp [Block.IsQuiet], paragraphLines_le .paragraph f rows⟩
  | some definition =>
    refine ⟨?_, definition_lines_le hclean hdefinition⟩
    intro b hb
    rw [List.mem_singleton.mp hb]
    refine hlabels.elim id fun hnone => ?_
    -- A definition is read off one of the lines, which holds the end of its label.
    obtain ⟨p, hp, hend⟩ := pair_infix_intercalate (by decide) (by decide)
      (Definition.holds_labelEnd hdefinition)
    obtain ⟨x, hx, rfl⟩ := List.mem_map.mp hp
    have hx' : x ∈ l :: rows := by
      rcases List.mem_cons.mp hx with rfl | hx
      · simp
      · simp [List.mem_of_mem_take hx]
    exact absurd (hend.trans (List.drop_suffix x.lead x.raw).isInfix) (hnone x hx')

/-- A reader of items reads rows of links on their own if its container is nested so deep only. -/
def Reader.ReadsLinks (definitions : Prop) (depth : Nat) (read : Reader) : Prop :=
  ∀ f l rows tail, LinkText f l → (∀ x ∈ rows, LinkRow x) → Tail f [] tail →
    (definitions ∨ ∀ x ∈ l :: rows, x.NoLabelEnd) →
    0 < f.indent → f.indent ≤ 10 → 20 ≤ depth + f.indent →
    LinksRead definitions (rows.length + 1) (read f (l :: rows ++ tail))

variable {item : Reader} {depth : Nat} {g : Frame}

theorem readItem_links (hitem : item.ReadsLinks definitions depth) (hl : LinkRow l)
    (hrows : ∀ x ∈ rows, LinkRow x) (ht : Tail g [] tail)
    (hlabels : definitions ∨ ∀ x ∈ l :: rows, x.NoLabelEnd) (hinside : ¬ l.indent < f.indent)
    (hdepth : 18 ≤ depth + f.indent) :
    LinksRead definitions (rows.length + 1) (readItem item f dash l (rows ++ tail)) := by
  have hframe := hl.itemFrame_eq f
  have hnear := hl.near
  have hnotBehind := hl.clean.notBehind
  rw [readItem_eq, hl.notStartsEmpty, Bool.false_and, if_neg (by simp)]
  refine hitem _ _ rows tail (hl.itemLine f) hrows (ht.inside ?_) ?_ ?_ ?_ ?_
  · rw [hframe]
    simp
  · refine hlabels.imp_right fun hnone x hx => ?_
    rcases List.mem_cons.mp hx with rfl | hx
    · exact hnone l (by simp)
    · exact hnone x (by simp [hx])
  · rw [hframe]
    simp
  · rw [hframe]
    simp only
    omega
  · rw [hframe]
    simp only
    omega

theorem readItems_links (hitem : item.ReadsLinks definitions depth)
    (hrows : ∀ x ∈ rows, LinkRow x) (ht : Tail g [] tail)
    (hlabels : definitions ∨ ∀ x ∈ rows, x.NoLabelEnd) (hdepth : 18 ≤ depth + f.indent)
    {owned : Nat} (howned : owned ≤ rows.length) :
    LinksRead definitions rows.length (readItems item f dash owned (rows ++ tail)) := by
  induction rows generalizing owned with
  | nil =>
    obtain ⟨hblocks, hused⟩ := readItems_tail item (f := f) (m := dash) ht howned
    exact ⟨by simp [hblocks], hused⟩
  | cons l rows ih =>
    have hmore : ∀ x ∈ rows, LinkRow x := fun x hx => hrows x (by simp [hx])
    have hmoreLabels : definitions ∨ ∀ x ∈ rows, x.NoLabelEnd :=
      hlabels.imp_right fun hnone x hx => hnone x (by simp [hx])
    cases owned with
    | succ owned =>
      obtain ⟨hquiet, huse⟩ := ih hmore hmoreLabels (by simpa using howned)
      exact ⟨hquiet, Nat.succ_le_succ huse⟩
    | zero =>
      rw [List.cons_append]
      cases hnext : nextMarker? f dash l with
      | none =>
        rw [readItems_none hnext]
        exact ⟨by simp, Nat.zero_le _⟩
      | some next =>
        have hl := hrows l (by simp)
        obtain ⟨hinside, rfl⟩ : ¬ l.indent < f.indent ∧ dash = next := by
          rw [nextMarker?, hl.marker] at hnext
          split at hnext
          · cases hnext
          · rename_i hstop
            simp only [Bool.or_eq_true, decide_eq_true_eq, not_or] at hstop
            exact ⟨hstop.1.1, Option.some.inj (Option.filter_eq_some_iff.mp hnext).1⟩
        obtain ⟨hquiet, huse⟩ := readItem_links hitem hl hmore ht hlabels hinside hdepth
        have hleft : (readItem item f dash l (rows ++ tail)).2 - 1 ≤ rows.length := by omega
        obtain ⟨hquiet', huse'⟩ := ih hmore hmoreLabels hleft
        rw [readItems_next hnext]
        refine ⟨?_, Nat.succ_le_succ huse'⟩
        intro b hb
        rcases List.mem_append.mp hb with hb | hb
        · rcases List.mem_cons.mp hb with rfl | hb
          · trivial
          · exact hquiet b hb
        · exact hquiet' b hb

theorem readBlock_links (quote : Reader) (hitem : item.ReadsLinks definitions depth) (hl : LinkRow l)
    (hrows : ∀ x ∈ rows, LinkRow x) (ht : Tail g [] tail)
    (hlabels : definitions ∨ ∀ x ∈ l :: rows, x.NoLabelEnd) (hinside : ¬ l.indent < f.indent)
    (hdepth : 18 ≤ depth + f.indent) :
    LinksRead definitions rows.length (readBlock quote item f l (rows ++ tail)) := by
  by_cases hcode : f.isCode l
  · simp only [readBlock, hcode, if_true, codeLines_cut ht f]
    exact ⟨by simp [Block.IsQuiet], codeLines_le f rows⟩
  · have hstart := hl.listStart? (f := f) (by simpa using hcode) hinside
    obtain ⟨hquiet, huse⟩ := readItem_links hitem hl hrows ht hlabels hinside hdepth
    have hleft : (readItem item f dash l (rows ++ tail)).2 - 1 ≤ rows.length := by omega
    obtain ⟨hquiet', huse'⟩ := readItems_links hitem hrows ht
      (hlabels.imp_right fun hnone x hx => hnone x (by simp [hx])) hdepth hleft
    simp only [readBlock, hcode, hl.noFence f, hl.noQuote, hl.noRule f, hstart]
    refine ⟨?_, huse'⟩
    intro b hb
    rcases List.mem_append.mp hb with hb | hb
    · rcases List.mem_cons.mp hb with rfl | hb
      · trivial
      rcases List.mem_cons.mp hb with rfl | hb
      · trivial
      · exact hquiet b hb
    · exact hquiet' b hb

/-- Rows of links are read as lists, paragraphs and code, and then what follows is read. -/
theorem readBlocks_links (quote : Reader) (hitem : item.ReadsLinks definitions depth)
    (hrows : ∀ x ∈ rows, LinkRow x) (ht : Tail g [] tail)
    (hlabels : definitions ∨ ∀ x ∈ rows, x.NoLabelEnd) (hdepth : 18 ≤ depth + f.indent)
    {owned : Nat} (howned : owned ≤ rows.length) :
    ∃ blocks, (∀ b ∈ blocks, b.IsQuiet definitions) ∧
      (readBlocks quote item f owned (rows ++ tail)).1 =
        blocks ++ (readBlocks quote item f 0 tail).1 ∧
      (0 < f.indent → (readBlocks quote item f owned (rows ++ tail)).2 ≤ rows.length) := by
  induction rows generalizing owned with
  | nil =>
    obtain rfl : owned = 0 := by simpa using howned
    refine ⟨[], by simp, rfl, fun hf => ?_⟩
    rw [List.nil_append, readBlocks_idle hf (ht.inside hf)]
  | cons l rows ih =>
    have hmore : ∀ x ∈ rows, LinkRow x := fun x hx => hrows x (by simp [hx])
    have hmoreLabels : definitions ∨ ∀ x ∈ rows, x.NoLabelEnd :=
      hlabels.imp_right fun hnone x hx => hnone x (by simp [hx])
    have hl := hrows l (by simp)
    rw [List.cons_append]
    cases owned with
    | succ owned =>
      obtain ⟨blocks, hquiet, hblocks, huse⟩ := ih hmore hmoreLabels (by simpa using howned)
      exact ⟨blocks, hquiet, hblocks, fun hf => Nat.succ_le_succ (huse hf)⟩
    | zero =>
      by_cases hleft : l.indent < f.indent
      · have hf : 0 < f.indent := by
          have := hl.clean.notBehind
          omega
        rw [readBlocks_left hl.isEmpty hleft, readBlocks_idle hf (ht.inside hf)]
        exact ⟨[], by simp, rfl, fun _ => Nat.zero_le _⟩
      · obtain ⟨hquiet, huse⟩ := readBlock_links quote hitem hl hmore ht hlabels hleft
          hdepth
        obtain ⟨blocks, hquiet', hblocks, huse'⟩ := ih hmore hmoreLabels huse
        rw [readBlocks_block hl.isEmpty hleft, hblocks]
        refine ⟨_ ++ blocks, ?_, (List.append_assoc ..).symm, fun hf => Nat.succ_le_succ (huse' hf)⟩
        intro b hb
        exact (List.mem_append.mp hb).elim (hquiet b) (hquiet' b)

/-- Rows of links never nest too deep. -/
theorem reader_links (definitions : Prop) (depth : Nat) :
    (reader depth).ReadsLinks definitions depth := by
  induction depth using reader.induct with
  | case1 =>
    intro f l rows tail _ _ _ _ _ hnear hdepth
    omega
  | case2 =>
    intro f l rows tail _ _ _ _ _ hnear hdepth
    omega
  | case3 depth _ ih =>
    intro f l rows tail hl hrows ht hlabels hf hnear hdepth
    obtain ⟨hquiet, huse⟩ := readText_links hl hrows ht hlabels
    obtain ⟨blocks, hquiet', hblocks, huse'⟩ := readBlocks_links (reader (depth + 1))
      (f := f) ih hrows ht (hlabels.imp_right fun hnone x hx => hnone x (by simp [hx])) (by omega)
      huse
    have hleft : ¬ l.indent < f.indent := by
      rw [hl.inside]
      omega
    have hread : reader (depth + 2) f (l :: rows ++ tail) =
        readBlocks (reader (depth + 1)) (reader depth) f 0 (l :: (rows ++ tail)) := rfl
    rw [hread, readBlocks_block hl.isEmpty hleft, readBlock_text hl.isText, hblocks,
      readBlocks_idle hf ht, List.append_nil]
    refine ⟨?_, Nat.succ_le_succ (huse' hf)⟩
    intro b hb
    exact (List.mem_append.mp hb).elim (hquiet b) (hquiet' b)

end

end DocTree.Markdown
