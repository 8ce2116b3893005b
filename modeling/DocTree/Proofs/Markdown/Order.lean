import DocTree.Markdown.Page
import DocTree.Proofs.Sequence

/-!
# Where blocks begin

Every block begins on one of the lines that its reader used, and blocks stand in the order of their
lines. A container begins on the line of its first block; apart from that no two blocks begin on one
line. So the headings of a page, and its HTML blocks, stand on strictly later and later lines, all
of them lines of the text.
-/
namespace DocTree.Markdown

/-- A block that holds others, the first of which may begin on its line. -/
def BlockKind.isContainer {α : Type} : BlockKind α → Bool
  | .quote | .bulletList | .orderedList | .item => true
  | _ => false

def Block.Precedes {α : Type} (b c : Block α) : Prop :=
  b.index ≤ c.index ∧ (b.kind.isContainer = false → b.index < c.index)

structure Placed {α : Type} (lines : List Nat) (blocks : List (Block α)) : Prop where
  mem : ∀ b ∈ blocks, b.index ∈ lines
  ordered : blocks.Pairwise Block.Precedes

namespace Placed

theorem nil {α : Type} (lines : List Nat) : Placed lines ([] : List (Block α)) :=
  ⟨by simp, List.Pairwise.nil⟩

theorem single {α : Type} {i : Nat} {lines : List Nat} (kind : BlockKind α) (h : i ∈ lines) :
    Placed lines [⟨i, kind⟩] :=
  ⟨by simpa using h, List.pairwise_singleton _ _⟩

theorem mono {α : Type} {lines more : List Nat} {blocks : List (Block α)} (h : Placed lines blocks)
    (hm : ∀ i ∈ lines, i ∈ more) : Placed more blocks :=
  ⟨fun b hb => hm b.index (h.mem b hb), h.ordered⟩

/-- Blocks on earlier lines in front of blocks on later lines. -/
theorem append {α : Type} {lines more : List Nat} {blocks rest : List (Block α)}
    (h : Placed lines blocks) (hr : Placed more rest) (hlt : ∀ i ∈ lines, ∀ j ∈ more, i < j) :
    Placed (lines ++ more) (blocks ++ rest) := by
  constructor
  · intro b hb
    rcases List.mem_append.mp hb with hb | hb
    · exact List.mem_append_left more (h.mem b hb)
    · exact List.mem_append_right lines (hr.mem b hb)
  · refine List.pairwise_append.mpr ⟨h.ordered, hr.ordered, ?_⟩
    intro b hb c hc
    have := hlt b.index (h.mem b hb) c.index (hr.mem c hc)
    exact ⟨Nat.le_of_lt this, fun _ => this⟩

/-- A container in front of what it holds. -/
theorem container {α : Type} {i : Nat} {lines : List Nat} {blocks : List (Block α)}
    {kind : BlockKind α} (h : Placed (i :: lines) blocks) (hk : kind.isContainer = true)
    (hle : ∀ j ∈ lines, i ≤ j) : Placed (i :: lines) (⟨i, kind⟩ :: blocks) := by
  constructor
  · intro b hb
    rcases List.mem_cons.mp hb with rfl | hb
    · exact List.mem_cons_self
    · exact h.mem b hb
  · refine List.pairwise_cons.mpr ⟨?_, h.ordered⟩
    intro b hb
    refine ⟨?_, by simp [hk]⟩
    rcases List.mem_cons.mp (h.mem b hb) with he | hj
    · exact Nat.le_of_eq he.symm
    · exact hle b.index hj

theorem map {α β : Type} {lines : List Nat} {blocks : List (Block α)} (f : α → β)
    (h : Placed lines blocks) : Placed lines (blocks.map (Block.map f)) := by
  constructor
  · intro b hb
    obtain ⟨a, ha, rfl⟩ := List.mem_map.mp hb
    exact h.mem a ha
  · refine List.pairwise_map.mpr (h.ordered.imp ?_)
    intro a b hab
    refine ⟨hab.1, fun hk => hab.2 ?_⟩
    cases ha : a.kind <;> simp_all [Block.map, BlockKind.map, BlockKind.isContainer]

/-- No two leaves begin on one line. -/
theorem eq_of_index {α : Type} {lines : List Nat} {blocks : List (Block α)} {b c : Block α}
    (h : Placed lines blocks) (hb : b ∈ blocks) (hc : c ∈ blocks)
    (hbk : b.kind.isContainer = false) (hck : c.kind.isContainer = false)
    (hindex : b.index = c.index) : b = c := by
  rcases eq_or_of_pairwise h.ordered hb hc with heq | hbc | hcb
  · exact heq
  · have := hbc.2 hbk
    omega
  · have := hcb.2 hck
    omega

end Placed

def indices (lines : List Line) : List Nat :=
  lines.map Line.index

@[simp] theorem indices_nil : indices [] = [] := rfl

@[simp] theorem indices_cons (l : Line) (rest : List Line) :
    indices (l :: rest) = l.index :: indices rest := rfl

@[simp] theorem length_indices (lines : List Line) : (indices lines).length = lines.length :=
  List.length_map ..

def Rising (lines : List Nat) : Prop :=
  lines.Pairwise (· < ·)

/-- What a reader of some lines gives: blocks in order on the lines it used. -/
def Reader.Orderly (read : Reader) : Prop :=
  ∀ f lines, Rising (indices lines) →
    Placed ((indices lines).take (read f lines).2) (read f lines).1

/-- Blocks that begin on a first line or on some after it, and then blocks further on. -/
theorem Placed.next {i owned n : Nat} {rest : List Nat} {first blocks : List (Block Text)}
    (hr : Rising (i :: rest)) (hf : Placed ((i :: rest).take (owned + 1)) first)
    (hb : Placed ((rest.take n).drop owned) blocks) (hn : min owned rest.length ≤ n) :
    Placed ((i :: rest).take (n + 1)) (first ++ blocks) := by
  have hlt : ∀ a ∈ (i :: rest).take (owned + 1), ∀ b ∈ (i :: rest).drop (owned + 1), a < b := by
    rw [Rising, ← List.take_append_drop (owned + 1) (i :: rest)] at hr
    exact (List.pairwise_append.mp hr).2.2
  have hb' : Placed ((i :: rest).drop (owned + 1)) blocks := by
    refine hb.mono ?_
    intro j hj
    rw [List.drop_take] at hj
    exact List.mem_of_mem_take hj
  have hall := hf.append hb' hlt
  refine ⟨?_, hall.ordered⟩
  intro b hmem
  rcases List.mem_append.mp hmem with hb₁ | hb₂
  · have hin := hf.mem b hb₁
    by_cases hle : owned ≤ n
    · exact List.take_subset_take_left _ (by omega) hin
    · have hshort : rest.length ≤ n := by omega
      rw [List.take_of_length_le (by simp; omega)]
      exact List.mem_of_mem_take hin
  · have hin := List.mem_of_mem_drop (hb.mem b hb₂)
    rw [List.take_succ_cons]
    exact List.mem_cons_of_mem i hin

theorem quoted?_index {l inner : Line} (h : l.quoted? = some inner) : inner.index = l.index := by
  unfold Line.quoted? at h
  split at h
  · split at h <;> cases h <;> rfl
  · cases h

theorem quoteLines_indices (f : Frame) (emptyBefore : Bool) (lines : List Line) :
    indices (quoteLines f emptyBefore lines) <+: indices lines := by
  induction lines generalizing emptyBefore with
  | nil => simp [quoteLines]
  | cons l rest ih =>
    rw [quoteLines]
    split
    · exact List.nil_prefix
    · split
      · rename_i inner hinner
        have hi : inner.index = l.index := by
          split at hinner
          · exact quoted?_index hinner
          · cases hinner
        rw [indices_cons, indices_cons, hi]
        exact (List.prefix_cons_inj _).mpr (ih _)
      · split
        · exact List.nil_prefix
        · exact (List.prefix_cons_inj _).mpr (ih _)

theorem mem_cons_take {i j used : Nat} {rest : List Nat} (h : j ∈ (i :: rest).take used) :
    j ∈ i :: rest.take (used - 1) := by
  cases used with
  | zero => simp at h
  | succ n => simpa using h

/-- The lines that an item owns are its first line and those counted after it. -/
theorem readItem_placed {item : Reader} (hitem : item.Orderly) (f : Frame) (m : ListMarker)
    {l : Line} {rest : List Line} (hr : Rising (l.index :: indices rest)) :
    Placed (l.index :: (indices rest).take ((readItem item f m l rest).2 - 1))
      (⟨l.index, .item⟩ :: (readItem item f m l rest).1) := by
  have hinner : Placed ((l.index :: indices rest).take (readItem item f m l rest).2)
      (readItem item f m l rest).1 := by
    unfold readItem
    dsimp only
    split
    · exact Placed.nil _
    · exact hitem _ (l.behind _ _ :: rest) hr
  refine Placed.container (hinner.mono fun j hj => mem_cons_take hj) rfl ?_
  · intro j hj
    exact Nat.le_of_lt ((List.pairwise_cons.mp hr).1 j (List.mem_of_mem_take hj))

theorem readItems_used (item : Reader) (f : Frame) (m : ListMarker) (owned : Nat)
    (lines : List Line) : min owned lines.length ≤ (readItems item f m owned lines).2 := by
  induction lines generalizing owned with
  | nil => simp
  | cons l rest ih =>
    cases owned with
    | zero => simp
    | succ owned =>
      have := ih owned
      simp only [readItems, List.length_cons]
      omega

theorem readItems_placed {item : Reader} (hitem : item.Orderly) (f : Frame) (m : ListMarker)
    (owned : Nat) {lines : List Line} (hr : Rising (indices lines)) :
    Placed (((indices lines).take (readItems item f m owned lines).2).drop owned)
      (readItems item f m owned lines).1 := by
  induction lines generalizing owned with
  | nil => cases owned <;> exact Placed.nil _
  | cons l rest ih =>
    have hrest : Rising (indices rest) := (List.pairwise_cons.mp hr).2
    cases owned with
    | succ owned => simpa [readItems] using ih owned hrest
    | zero =>
      rw [readItems]
      split
      · exact Placed.nil _
      · rename_i next _
        have hused := readItems_used item f m ((readItem item f next l rest).2 - 1) rest
        rw [← length_indices] at hused
        exact Placed.next hr (readItem_placed hitem f next hr) (ih _ hrest) hused

/-- A block and what it holds begin on its first line and on the lines it owns after it. -/
theorem readBlock_placed {quote item : Reader} (hquote : quote.Orderly) (hitem : item.Orderly)
    (f : Frame) {l : Line} {rest : List Line} (hr : Rising (l.index :: indices rest)) :
    Placed (l.index :: (indices rest).take (readBlock quote item f l rest).2)
      (readBlock quote item f l rest).1 := by
  have hleaf : ∀ (n : Nat) (kind : BlockKind Text),
      Placed (l.index :: (indices rest).take n) [⟨l.index, kind⟩] :=
    fun n kind => Placed.single kind List.mem_cons_self
  have hle : ∀ n, ∀ j ∈ (indices rest).take n, l.index ≤ j :=
    fun n j hj => Nat.le_of_lt ((List.pairwise_cons.mp hr).1 j (List.mem_of_mem_take hj))
  unfold readBlock
  split
  · exact hleaf _ _
  split
  · exact hleaf _ _
  split
  · rename_i first hfirst
    have hprefix : indices (first :: quoteLines f first.isEmpty rest) <+:
        l.index :: indices rest := by
      rw [indices_cons, quoted?_index hfirst]
      exact (List.prefix_cons_inj _).mpr (quoteLines_indices _ _ _)
    have hinner := hquote ⟨0, f.list⟩ (first :: quoteLines f first.isEmpty rest)
      (List.Pairwise.sublist hprefix.sublist hr)
    refine Placed.container (hinner.mono ?_) rfl (hle _)
    intro j hj
    obtain ⟨t, ht⟩ := hprefix
    refine mem_cons_take ?_
    rw [← ht, List.take_append]
    exact List.mem_append_left _ hj
  split
  · exact hleaf _ _
  split
  · rename_i m _
    have hused := readItems_used item f m ((readItem item f m l rest).2 - 1) rest
    rw [← length_indices] at hused
    have hitems := Placed.next hr (readItem_placed hitem f m hr)
      (readItems_placed hitem f m _ (List.pairwise_cons.mp hr).2) hused
    refine Placed.container hitems ?_ (hle _)
    split <;> rfl
  split
  · exact hleaf _ _
  split
  · exact hleaf _ _
  split
  · exact hleaf _ _
  split
  · exact hleaf _ _
  · exact hleaf _ _

theorem readBlocks_used (quote item : Reader) (f : Frame) (owned : Nat) (lines : List Line) :
    min owned lines.length ≤ (readBlocks quote item f owned lines).2 := by
  induction lines generalizing owned with
  | nil => simp
  | cons l rest ih =>
    cases owned with
    | zero => simp
    | succ owned =>
      have := ih owned
      simp only [readBlocks, List.length_cons]
      omega

theorem readBlocks_placed {quote item : Reader} (hquote : quote.Orderly) (hitem : item.Orderly)
    (f : Frame) (owned : Nat) {lines : List Line} (hr : Rising (indices lines)) :
    Placed (((indices lines).take (readBlocks quote item f owned lines).2).drop owned)
      (readBlocks quote item f owned lines).1 := by
  induction lines generalizing owned with
  | nil => cases owned <;> exact Placed.nil _
  | cons l rest ih =>
    have hrest : Rising (indices rest) := (List.pairwise_cons.mp hr).2
    cases owned with
    | succ owned => simpa [readBlocks] using ih owned hrest
    | zero =>
      rw [readBlocks]
      split
      · refine (ih 0 hrest).mono ?_
        intro j hj
        exact List.mem_cons_of_mem l.index hj
      split
      · exact Placed.nil _
      · have hused := readBlocks_used quote item f (readBlock quote item f l rest).2 rest
        rw [← length_indices] at hused
        exact Placed.next hr (readBlock_placed hquote hitem f hr) (ih _ hrest) hused

theorem readBlocks_orderly {quote item : Reader} (hquote : quote.Orderly)
    (hitem : item.Orderly) : Reader.Orderly fun f => readBlocks quote item f 0 := by
  intro f lines hr
  simpa using readBlocks_placed hquote hitem f 0 hr

theorem passOver_orderly : passOver.Orderly := by
  intro f lines _
  have hnone : (passOver f lines).1 = [] := by
    unfold passOver
    split
    · rfl
    · split <;> rfl
  rw [hnone]
  exact Placed.nil _

/-- Containers of any depth are read in order. -/
theorem reader_orderly (depth : Nat) : (reader depth).Orderly := by
  induction depth using reader.induct with
  | case1 => exact passOver_orderly
  | case2 => exact readBlocks_orderly passOver_orderly passOver_orderly
  | case3 depth ih₁ ih₂ => exact readBlocks_orderly ih₁ ih₂

theorem indices_numbered (n : Nat) (lines : List Text) :
    indices (Line.numbered n lines) = List.range' n lines.length := by
  induction lines generalizing n with
  | nil => rfl
  | cons s rest ih => simp [Line.numbered, ih, Line.ofBlanks, List.range'_succ]

/-- A document has no more lines than its text. A blank after the last break is a line of the text
only. -/
theorem length_ofText_le (s : Text) : (Line.ofText s).length ≤ s.lineCount := by
  have hlength : (Line.ofText s).length =
      if ((Lines.ofText s).lines.getLastD []).all Text.isGap then (Lines.ofText s).rest.length
      else (Lines.ofText s).rest.length + 1 := by
    rw [← length_indices, Line.ofText, indices_numbered]
    split <;> simp [Lines.lines]
  rw [hlength, Text.lineCount, Lines.count]
  split
  · split <;> omega
  · rename_i hblank
    have hlast : (Lines.ofText s).lines.getLast? ≠ some [] := by
      intro h
      rw [List.getLastD_eq_getLast?, h] at hblank
      simp at hblank
    exact Nat.le_of_eq (if_neg hlast).symm

theorem blocks_placed (s : Text) : Placed (List.range s.lineCount) (blocks s) := by
  have hindices : indices (Line.ofText s) = List.range (Line.ofText s).length := by
    rw [List.range_eq_range', ← length_indices, Line.ofText, indices_numbered]
    simp
  have hr : Rising (indices (Line.ofText s)) := by
    rw [hindices]
    exact List.pairwise_lt_range
  refine (reader_orderly maxDepth {} (Line.ofText s) hr).mono ?_
  intro i hi
  have hmem := List.mem_of_mem_take hi
  rw [hindices, List.mem_range] at hmem
  have := length_ofText_le s
  exact List.mem_range.mpr (by omega)

namespace Page

theorem ofText_placed (s : Text) : Placed (List.range s.lineCount) (ofText s) :=
  (blocks_placed s).map _

/-- What is read off the leaves of a page stands in the order of their lines. -/
theorem pairwise_filterMap {α β : Type} {lines : List Nat} {blocks : List (Block α)}
    (h : Placed lines blocks) (f : Block α → Option β) (line : β → Nat)
    (hf : ∀ b, ∀ x ∈ f b, line x = b.index ∧ b.kind.isContainer = false) :
    (blocks.filterMap f).Pairwise fun x y => line x < line y := by
  refine List.pairwise_filterMap.mpr (h.ordered.imp ?_)
  intro b c hbc x hx y hy
  rw [(hf b x hx).1, (hf c y hy).1]
  exact hbc.2 (hf b x hx).2

theorem raw_of_block {b : Block (List Inline)} {x : Raw}
    (h : (match b.kind with
      | .html literal => some (⟨b.index, literal⟩ : Raw)
      | _ => none) = some x) : x.index = b.index ∧ b.kind.isContainer = false := by
  cases hk : b.kind <;> simp_all [BlockKind.isContainer]
  subst h
  rfl

/-- HTML blocks begin on strictly later and later lines. -/
theorem raws_rising (s : Text) : (raws (ofText s)).Pairwise fun x y => x.index < y.index :=
  pairwise_filterMap (ofText_placed s) _ Raw.index fun _ _ h => raw_of_block h

/-- HTML blocks begin on lines of the text. -/
theorem raw_index_lt {s : Text} {x : Raw} (h : x ∈ raws (ofText s)) : x.index < s.lineCount := by
  obtain ⟨b, hb, hx⟩ := List.mem_filterMap.mp h
  rw [(raw_of_block hx).1]
  exact List.mem_range.mp ((ofText_placed s).mem b hb)

theorem title_of_block {b : Block (List Inline)} {x : Title}
    (h : (match b.kind with
      | .heading level content => some (⟨b.index, level, plainText (Inline.leaves content)⟩ : Title)
      | _ => none) = some x) : x.index = b.index ∧ b.kind.isContainer = false := by
  cases hk : b.kind <;> simp_all [BlockKind.isContainer]
  subst h
  rfl

/-- Headings begin on lines of the text. -/
theorem title_index_lt {s : Text} {x : Title} (h : x ∈ titles (ofText s)) :
    x.index < s.lineCount := by
  obtain ⟨b, hb, hx⟩ := List.mem_filterMap.mp h
  rw [(title_of_block hx).1]
  exact List.mem_range.mp ((ofText_placed s).mem b hb)

/-- No heading begins on the line of an HTML block. -/
theorem title_index_ne_raw_index {s : Text} {x : Title} {y : Raw} (hx : x ∈ titles (ofText s))
    (hy : y ∈ raws (ofText s)) : x.index ≠ y.index := by
  obtain ⟨b, hb, hbx⟩ := List.mem_filterMap.mp hx
  obtain ⟨c, hc, hcy⟩ := List.mem_filterMap.mp hy
  obtain ⟨hxb, hbk⟩ := title_of_block hbx
  obtain ⟨hyc, hck⟩ := raw_of_block hcy
  intro hindex
  have hbc := (ofText_placed s).eq_of_index hb hc hbk hck (by omega)
  subst hbc
  cases hk : b.kind <;> simp [hk] at hbx hcy

end Page

end DocTree.Markdown
