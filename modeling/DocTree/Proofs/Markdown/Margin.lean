import DocTree.Proofs.Markdown.Lines

/-!
# Lines at the left margin

What the first character of a line tells about the block that begins on it. A heading, a thematic
break and a comment at the left margin cut.
-/
namespace DocTree.Markdown

theorem ListMarker.of?_eq_none {s : Text} {c : Char} (hs : s.head? = some c)
    (hdigit : c.isDigit = false) (hmark : c ≠ '*' ∧ c ≠ '-' ∧ c ≠ '+') : of? s = none := by
  obtain ⟨rest, rfl⟩ : ∃ rest, s = c :: rest := by
    cases s with
    | nil => cases hs
    | cons d rest => exact ⟨rest, by rw [Option.some.inj hs]⟩
  have hdigits : (c :: rest).takeWhile Char.isDigit = [] := by simp [hdigit]
  simp only [of?, hdigits]
  simp [hmark]

theorem Line.quoted?_eq_none {l : Line} (h : l.content.head? ≠ some '>') : l.quoted? = none := by
  unfold Line.quoted?
  split
  · rename_i rest hcontent
    rw [hcontent] at h
    exact absurd rfl h
  · rfl

theorem Fence.of?_eq_none {l : Line} (f : Frame) (h : ∀ c ∈ l.content.head?, c ≠ '~' ∧ c ≠ '`') :
    Fence.of? f l = none := by
  unfold Fence.of?
  split
  · rfl
  · rename_i c rest hcontent
    rw [hcontent] at h
    obtain ⟨htilde, htick⟩ := h c rfl
    simp [htilde, htick]

theorem isRule_eq_false {l : Line} (f : Frame)
    (h : ∀ c ∈ l.content.head?, c ≠ '*' ∧ c ≠ '-' ∧ c ≠ '_') : isRule f l = false := by
  unfold isRule
  split
  · rfl
  · rename_i c rest hcontent
    rw [hcontent] at h
    obtain ⟨hstar, hminus, hline⟩ := h c rfl
    simp [hstar, hminus, hline]

theorem Tag.HtmlKind.of?_eq_none {s : Text} (h : s.head? ≠ some '<') : of? s = none := by
  unfold of?
  split
  · exact absurd rfl h
  · rfl

theorem html?_eq_none {l : Line} (f : Frame) (h : l.content.head? ≠ some '<') :
    html? f l = none := by
  unfold html?
  split
  · rfl
  · exact Tag.HtmlKind.of?_eq_none h

theorem heading?_eq_none {l : Line} (f : Frame) (h : l.content.head? ≠ some '#') :
    heading? f l = none := by
  have hnone : l.content.takeWhile (· == '#') = [] := by
    cases hcontent : l.content with
    | nil => rfl
    | cons c rest =>
      rw [hcontent] at h
      have : c ≠ '#' := fun hc => h (by rw [hc]; rfl)
      simp [this]
  simp [heading?, hnone]

theorem underline?_eq_none {l : Line} (h : ∀ c ∈ l.content.head?, c ≠ '-' ∧ c ≠ '=') :
    underline? l = none := by
  unfold underline?
  split
  · rfl
  · rename_i c rest hcontent
    rw [hcontent] at h
    obtain ⟨hminus, hequals⟩ := h c rfl
    simp [hminus, hequals]

theorem listStart?_eq_none {l : Line} (interrupting : Bool) (f : Frame)
    (h : ListMarker.of? l.content = none) : listStart? interrupting f l = none := by
  unfold listStart?
  split
  · rfl
  split
  · rfl
  · rw [h]
    rfl

theorem Definition.read?_eq_none {s : Text} (h : s.head? ≠ some '[') : read? s = none := by
  unfold Definition.read?
  split
  · exact absurd rfl h
  · rfl

theorem head?_intercalate {p : Text} (hp : p ≠ []) (parts : List Text) :
    (List.intercalate ['\n'] (p :: parts)).head? = p.head? := by
  cases parts with
  | nil => simp
  | cons q parts =>
    rw [List.intercalate_cons_cons, List.append_assoc, List.head?_append_of_ne_nil _ hp]

def Line.flush (index : Nat) (raw : Text) : Line :=
  ⟨index, 0, 0, 0, raw⟩

theorem Line.ofBlanks_flush {raw : Text} (h : ∀ c ∈ raw.head?, Text.isGap c = false)
    (index : Nat) : Line.ofBlanks index 0 0 raw = Line.flush index raw := by
  cases raw with
  | nil => rfl
  | cons c rest =>
    have hc : Text.isGap c = false := h c rfl
    have hspace : c ≠ ' ' := by
      rintro rfl
      cases hc
    have htab : c ≠ '\t' := by
      rintro rfl
      cases hc
    simp [Line.ofBlanks, Line.flush, hc, blankWidth, hspace, htab]

theorem Line.flush_isCode (f : Frame) (index : Nat) (raw : Text) :
    f.isCode (Line.flush index raw) = false := by
  have hindent : (Line.flush index raw).indent = 0 := rfl
  simp only [Frame.isCode, hindent, decide_eq_false_iff_not]
  omega

theorem Line.flush_notEmpty {raw : Text} {c : Char} (h : raw.head? = some c) (index : Nat) :
    (Line.flush index raw).isEmpty = false := by
  cases raw with
  | nil => cases h
  | cons d rest => rfl

theorem Line.flush_unindented (index : Nat) (raw : Text) :
    (Line.flush index raw).unindented 0 = raw := by
  cases raw with
  | nil => rfl
  | cons c rest => simp [Line.unindented, Line.flush, dropWidth]

/-- Lines that begin with another character than a bracket are no definition. -/
theorem definition_eq_none {raw : Text} {c : Char} (h : raw.head? = some c) (hc : c ≠ '[')
    (index : Nat) (more : List Line) : Definition.read? (List.intercalate ['\n']
      ((Line.flush index raw :: more).map Line.content)) = none := by
  refine Definition.read?_eq_none ?_
  rw [List.map_cons, head?_intercalate]
  · simp [Line.flush, Line.content, h, hc]
  · cases raw with
    | nil => cases h
    | cons d rest => simp [Line.flush, Line.content]

def hyphens : Text := "---".toList

theorem isRule_hyphens (f : Frame) (index : Nat) : isRule f (Line.flush index hyphens) := by
  have hcontent : (Line.flush index hyphens).content = ['-', '-', '-'] := rfl
  simp [isRule, Line.flush_isCode, hcontent]

theorem cuts_hyphens (index : Nat) : (Line.flush index hyphens).Cuts where
  margin := rfl
  notEmpty := rfl
  interrupts what f _ := by simp [interrupts, isRule_hyphens]
  noMarker := rfl
  noQuote := rfl

structure Line.IsHeading (l : Line) : Prop where
  margin : l.indent = 0
  heading : (heading? {} l).isSome

instance (l : Line) : Decidable l.IsHeading :=
  decidable_of_iff (l.indent = 0 ∧ (heading? {} l).isSome)
    ⟨fun h => ⟨h.1, h.2⟩, fun h => ⟨h.margin, h.heading⟩⟩

namespace Line.IsHeading

variable {l : Line}

theorem head (h : l.IsHeading) : l.content.head? = some '#' := by
  by_contra hne
  have := h.heading
  simp [heading?_eq_none {} hne] at this

theorem cuts (h : l.IsHeading) : l.Cuts := by
  have hcode : ∀ f : Frame, f.isCode l = false := by
    intro f
    simp only [Frame.isCode, h.margin, decide_eq_false_iff_not]
    omega
  have hheading : ∀ f, (heading? f l).isSome := by
    intro f
    have := h.heading
    rw [heading?, hcode] at this ⊢
    exact this
  refine ⟨h.margin, ?_, ?_, ?_, ?_⟩
  · rw [Line.isEmpty, ← Bool.not_eq_true, List.isEmpty_iff]
    intro hnil
    simpa [hnil] using h.head
  · intro what f hwhat
    have hwhat' : (what != .list) = true := by simpa using hwhat
    simp [interrupts, hheading f, hwhat']
  · exact ListMarker.of?_eq_none h.head (by decide) (by decide)
  · exact Line.quoted?_eq_none (by simp [h.head])

theorem tail (h : l.IsHeading) (f : Frame) (rest : List Line) : Tail f [] (l :: rest) :=
  ⟨by simp, l, rest, rfl, h.cuts, fun _ => underline?_eq_none (by simp [h.head])⟩

end Line.IsHeading

/-- The text begins with a heading at the left margin, written with number signs. -/
def BeginsWithHeading (s : Text) : Prop :=
  ∃ l ∈ (Line.ofText s).head?, l.IsHeading

instance (s : Text) : Decidable (BeginsWithHeading s) :=
  decidable_of_iff ((Line.ofText s).head?.any fun l => l.IsHeading)
    (by simp [BeginsWithHeading, Option.any_eq_true])

/-- Such a text cuts what stands above it. -/
theorem BeginsWithHeading.tail {s : Text} (h : BeginsWithHeading s) :
    Tail {} [] (Line.ofText s) := by
  obtain ⟨l, hl, hheading⟩ := h
  obtain ⟨rest, hlines⟩ := List.head?_eq_some_iff.mp hl
  rw [hlines]
  exact hheading.tail {} rest

structure IsComment (s : Text) : Prop where
  head : s.head? = some '<'
  kind : Tag.HtmlKind.of? s = some .comment
  ends : Tag.HtmlKind.comment.endsWith s
  unbroken : s.Unbroken
  plain : Line.withoutNull s = s

namespace IsComment

variable {s : Text}

theorem html? (h : IsComment s) (f : Frame) (index : Nat) :
    Markdown.html? f (Line.flush index s) = some .comment := by
  rw [Markdown.html?, Line.flush_isCode]
  exact h.kind

theorem noMarker (h : IsComment s) : ListMarker.of? s = none :=
  ListMarker.of?_eq_none h.head (by decide) (by decide)

theorem cuts (h : IsComment s) (index : Nat) : (Line.flush index s).Cuts where
  margin := rfl
  notEmpty := Line.flush_notEmpty h.head index
  interrupts what f hwhat := by
    have hwhat' : (what != .list) = true := by simpa using hwhat
    simp [interrupts, h.html?, hwhat', Tag.HtmlKind.interrupts]
  noMarker := h.noMarker
  noQuote := Line.quoted?_eq_none (by simp [Line.flush, Line.content, h.head])

theorem tail (h : IsComment s) (f : Frame) (index : Nat) (rest : List Line) :
    Tail f [] (Line.flush index s :: rest) := by
  refine ⟨by simp, _, rest, rfl, h.cuts index, fun _ => ?_⟩
  exact underline?_eq_none (by simp [Line.flush, Line.content, h.head])

end IsComment

end DocTree.Markdown
