import DocTree.Proofs.Markdown.Order
import Mathlib.Data.List.TakeWhile

/-!
# Lines that cut

A line at the left margin that begins a block whatever stands above it, such as a heading or a
comment, ends every paragraph, quote and list. This module tells how far blocks that are no
containers reach when such a line follows: as far as without it, but for code between fences and
raw HTML at the left margin.
-/
namespace DocTree.Markdown

/-- The line begins a block at the left margin, one that is neither a list nor a quote, and breaks
into a paragraph or a quote above it. -/
structure Line.Cuts (c : Line) : Prop where
  margin : c.indent = 0
  notEmpty : c.isEmpty = false
  interrupts : ∀ what f, what ≠ .list → interrupts what f c = true
  noMarker : ListMarker.of? c.content = none
  noQuote : c.quoted? = none

theorem Line.Cuts.isCode {c : Line} (h : c.Cuts) (f : Frame) : f.isCode c = false := by
  simp only [Frame.isCode, h.margin, decide_eq_false_iff_not]
  omega

/-- Empty lines, and then a line that cuts. At the left margin it must not underline what stands
above it. -/
def Tail (f : Frame) (gap tail : List Line) : Prop :=
  (∀ e ∈ gap, e.isEmpty) ∧ ∃ c rest, tail = gap ++ c :: rest ∧ c.Cuts ∧
    (f.indent = 0 → underline? c = none)

namespace Tail

variable {f : Frame} {gap tail : List Line}

theorem exists_cut (h : Tail f [] tail) : ∃ c rest, tail = c :: rest ∧ c.Cuts ∧
    (f.indent = 0 → underline? c = none) := by
  obtain ⟨-, c, rest, rfl, hc⟩ := h
  exact ⟨c, rest, rfl, hc⟩

theorem exists_cons {e : Line} (h : Tail f (e :: gap) tail) :
    e.isEmpty ∧ ∃ more, tail = e :: more ∧ Tail f gap more := by
  obtain ⟨hempty, c, rest, rfl, hc⟩ := h
  exact ⟨hempty e (by simp), gap ++ c :: rest, rfl, fun e he => hempty e (by simp [he]), c, rest,
    rfl, hc⟩

theorem inside {inner : Frame} (h : Tail f gap tail) (hinner : 0 < inner.indent) :
    Tail inner gap tail := by
  obtain ⟨hempty, c, rest, rfl, hc, -⟩ := h
  exact ⟨hempty, c, rest, rfl, hc, fun h => by omega⟩

theorem cons {e : Line} (he : e.isEmpty) (h : Tail f gap tail) : Tail f (e :: gap) (e :: tail) := by
  obtain ⟨hempty, c, rest, rfl, hc⟩ := h
  refine ⟨?_, c, rest, rfl, hc⟩
  intro d hd
  rcases List.mem_cons.mp hd with rfl | hd
  · exact he
  · exact hempty d hd

end Tail

section

variable {f : Frame} {gap tail : List Line}

theorem codeLines_tail (h : Tail f gap tail) (g : Frame) : codeLines g tail = 0 := by
  induction gap generalizing tail with
  | nil =>
    obtain ⟨c, rest, rfl, hc, -⟩ := h.exists_cut
    simp [codeLines, hc.notEmpty, hc.isCode]
  | cons e gap ih =>
    obtain ⟨he, more, rfl, hmore⟩ := h.exists_cons
    simp [codeLines, he, ih hmore]

theorem codeLines_cut (h : Tail f gap tail) (g : Frame) (lines : List Line) :
    codeLines g (lines ++ tail) = codeLines g lines := by
  induction lines with
  | nil => exact codeLines_tail h g
  | cons l rest ih => simp only [List.cons_append, codeLines, ih]

theorem codeLines_le (f : Frame) (lines : List Line) : codeLines f lines ≤ lines.length := by
  induction lines with
  | nil => simp [codeLines]
  | cons l rest ih =>
    rw [codeLines, List.length_cons]
    split
    · split <;> omega
    · split <;> omega

theorem paragraphLines_cut {what : Interrupted} (hwhat : what ≠ .list) (h : Tail f gap tail)
    (g : Frame) (lines : List Line) :
    paragraphLines what g (lines ++ tail) = paragraphLines what g lines := by
  induction lines with
  | nil =>
    cases gap with
    | nil =>
      obtain ⟨c, rest, rfl, hc, -⟩ := h.exists_cut
      simp [paragraphLines, hc.notEmpty, hc.isCode, hc.margin, hc.interrupts what g hwhat]
    | cons e gap =>
      obtain ⟨he, more, rfl, -⟩ := h.exists_cons
      simp [paragraphLines, he]
  | cons l rest ih => simp only [List.cons_append, paragraphLines, ih]

theorem paragraphLines_le (what : Interrupted) (f : Frame) (lines : List Line) :
    paragraphLines what f lines ≤ lines.length := by
  induction lines with
  | nil => simp [paragraphLines]
  | cons l rest ih =>
    rw [paragraphLines, List.length_cons]
    split
    · omega
    · split <;> omega

theorem underlined?_cut (h : Tail f gap tail) (lines : List Line) :
    underlined? f (lines ++ tail) = underlined? f lines := by
  induction lines with
  | nil =>
    cases gap with
    | nil =>
      obtain ⟨c, rest, rfl, hc, hunder⟩ := h.exists_cut
      have hnone : (if f.isCode c || c.indent < f.indent then none else underline? c) = none := by
        by_cases hindent : f.indent = 0
        · simp [hunder hindent]
        · have : 0 < f.indent := Nat.pos_of_ne_zero hindent
          simp [hc.margin, this]
      simp only [List.nil_append, underlined?, hnone]
      simp [hc.notEmpty, hc.isCode, hc.margin, hc.interrupts .paragraph f (by decide)]
    | cons e gap =>
      obtain ⟨he, more, rfl, -⟩ := h.exists_cons
      simp [underlined?, he]
  | cons l rest ih => simp only [List.cons_append, underlined?, ih]

theorem underlined?_lt {lines : List Line} {n level : Nat}
    (h : underlined? f lines = some (n, level)) : n < lines.length := by
  induction lines generalizing n with
  | nil => cases h
  | cons l rest ih =>
    rw [underlined?] at h
    split at h
    · cases h
    split at h
    · cases h
      simp
    split at h
    · obtain ⟨⟨m, level'⟩, hm, heq⟩ := Option.map_eq_some_iff.mp h
      cases heq
      have := ih hm
      simpa using this
    · cases h

theorem quoteLines_cut (h : Tail f gap tail) (emptyBefore : Bool) (lines : List Line) :
    quoteLines f emptyBefore (lines ++ tail) = quoteLines f emptyBefore lines := by
  induction lines generalizing emptyBefore with
  | nil =>
    cases gap with
    | nil =>
      obtain ⟨c, rest, rfl, hc, -⟩ := h.exists_cut
      simp [quoteLines, hc.notEmpty, hc.noQuote, hc.interrupts .quote f (by decide)]
    | cons e gap =>
      obtain ⟨he, more, rfl, -⟩ := h.exists_cons
      simp [quoteLines, he]
  | cons l rest ih => simp only [List.cons_append, quoteLines, ih]

theorem quoteLines_length (f : Frame) (emptyBefore : Bool) (lines : List Line) :
    (quoteLines f emptyBefore lines).length ≤ lines.length := by
  have := (quoteLines_indices f emptyBefore lines).length_le
  simpa using this

theorem fenceLines_le (f : Frame) (fence : Fence) (lines : List Line) :
    fenceLines f fence lines ≤ lines.length := by
  induction lines with
  | nil => simp [fenceLines]
  | cons l rest ih =>
    rw [fenceLines, List.length_cons]
    split
    · omega
    · split <;> omega

theorem htmlLines_le (f : Frame) (kind : Tag.HtmlKind) (lines : List Line) :
    htmlLines f kind lines ≤ lines.length := by
  induction lines with
  | nil => simp [htmlLines]
  | cons l rest ih =>
    rw [htmlLines, List.length_cons]
    split
    · omega
    split
    · split <;> omega
    · omega

/-- Code between fences ends in some lines, or goes on after them. -/
theorem fenceLines_append (f : Frame) (fence : Fence) (lines : List Line) :
    (∀ tail, fenceLines f fence (lines ++ tail) = fenceLines f fence lines) ∨
      ∀ tail, fenceLines f fence (lines ++ tail) = lines.length + fenceLines f fence tail := by
  induction lines with
  | nil => exact Or.inr (by simp)
  | cons l rest ih =>
    simp only [List.cons_append, fenceLines]
    by_cases hleft : !l.isEmpty && l.indent < f.indent
    · simp [hleft]
    by_cases hclosed : fence.isClosedBy f l
    · simp [hleft, hclosed]
    · simp only [hleft, hclosed, if_false, Bool.false_eq_true, List.length_cons]
      exact ih.imp (fun h tail => by rw [h]) (fun h tail => by rw [h]; omega)

/-- Raw HTML ends in some lines, or goes on after them. -/
theorem htmlLines_append (f : Frame) (kind : Tag.HtmlKind) (lines : List Line) :
    (∀ tail, htmlLines f kind (lines ++ tail) = htmlLines f kind lines) ∨
      ∀ tail, htmlLines f kind (lines ++ tail) = lines.length + htmlLines f kind tail := by
  induction lines with
  | nil => exact Or.inr (by simp)
  | cons l rest ih =>
    simp only [List.cons_append, htmlLines]
    by_cases hleft : !l.isEmpty && l.indent < f.indent
    · simp [hleft]
    by_cases hended : kind.endsWith l.content
    · simp [hleft, hended]
    · simp only [hleft, hended, if_false, Bool.false_eq_true, List.length_cons]
      exact ih.imp (fun h tail => by rw [h]) (fun h tail => by rw [h]; omega)

end

theorem Definition.lines_le {s : Text} {d : Definition} (h : Definition.read? s = some d) :
    d.lines ≤ s.count '\n' + 1 := by
  unfold Definition.read? at h
  simp only [Option.bind_eq_bind, Option.pure_def] at h
  split at h
  · rename_i body
    obtain ⟨⟨label, after⟩, -, h⟩ := Option.bind_eq_some_iff.mp h
    dsimp only at h
    split at h
    · obtain ⟨after, -, h⟩ := Option.bind_eq_some_iff.mp h
      split at h
      · cases h
      split at h
      · cases h
      · cases h
        exact Nat.add_le_add_right ((List.take_sublist _ _).count_le '\n') 1
    · cases h
  · cases h

/-- Lines without breaks in them are joined by breaks between them. -/
theorem count_intercalate {parts : List Text} (h : ∀ p ∈ parts, '\n' ∉ p) :
    (List.intercalate ['\n'] parts).count '\n' = parts.length - 1 := by
  induction parts with
  | nil => rfl
  | cons p rest ih =>
    have hp : p.count '\n' = 0 := List.count_eq_zero.mpr (h p (by simp))
    cases rest with
    | nil => simpa using hp
    | cons q rest =>
      have := ih fun r hr => h r (by simp [hr])
      simp only [List.length_cons, Nat.add_sub_cancel] at this
      simp [List.intercalate_cons_cons, hp, this]

structure Line.Clean (l : Line) : Prop where
  notBehind : 0 ≤ l.indent
  unbroken : '\n' ∉ l.raw

theorem Line.Clean.content {l : Line} (h : l.Clean) : '\n' ∉ l.content :=
  fun hmem => h.unbroken (List.mem_of_mem_drop hmem)

theorem Line.Clean.behind {l : Line} (h : l.Clean) (width indent : Nat) :
    (l.behind width indent).Clean :=
  ⟨Int.natCast_nonneg indent, h.unbroken⟩

/-- A definition lies within the lines it is looked for in. -/
theorem definition_lines_le {l : Line} {rest : List Line} {n : Nat} {d : Definition}
    (hclean : ∀ x ∈ l :: rest, x.Clean)
    (h : Definition.read? (List.intercalate ['\n'] ((l :: rest.take n).map Line.content)) =
      some d) : d.lines - 1 ≤ rest.length := by
  have hunbroken : ∀ p ∈ (l :: rest.take n).map Line.content, '\n' ∉ p := by
    intro p hp
    obtain ⟨x, hx, rfl⟩ := List.mem_map.mp hp
    refine (hclean x ?_).content
    rcases List.mem_cons.mp hx with rfl | hx
    · simp
    · simp [List.mem_of_mem_take hx]
  have hcount := count_intercalate hunbroken
  have := Definition.lines_le h
  rw [hcount] at this
  simp at this
  omega

end DocTree.Markdown
