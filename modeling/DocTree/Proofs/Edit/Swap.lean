import DocTree.Proofs.Edit.Keep
import DocTree.Proofs.Edit.Within

/-!
# Edits in another order

Edits of different starts are carried out in the order of their starts, whatever order they are
given in. Of edits that keep clear of each other only a place and the range right behind it have one
start. If the place comes first, the range is counted from the block that was put there: the block
goes instead of the last line of the range, which stays. So the order of the edits matters exactly if
it does for such two.
-/
namespace DocTree

namespace Edit

/-- Edits within so many lines that do not reach into each other, one place at a line at most. -/
structure Clear (lines : Nat) (edits : List Edit) : Prop where
  inside : ∀ e ∈ edits, e.span.past ≤ lines + 1
  apart : edits.Pairwise fun e f => e.span.Apart f.span
  single : edits.Pairwise fun e f =>
    e.span.IsPlace → f.span.IsPlace → e.span.start ≠ f.span.start

/-- The first edit is a place, the second a range right behind it. -/
structure Fronts (p r : Edit) : Prop where
  place : p.span.IsPlace
  range : ¬ r.span.IsPlace
  start : p.span.start = r.span.start

instance (p r : Edit) : Decidable (p.Fronts r) :=
  decidable_of_iff (p.span.IsPlace ∧ ¬ r.span.IsPlace ∧ p.span.start = r.span.start)
    ⟨fun ⟨hp, hr, hs⟩ => ⟨hp, hr, hs⟩, fun ⟨hp, hr, hs⟩ => ⟨hp, hr, hs⟩⟩

def shortened (e : Edit) (h : ¬ e.span.IsPlace) : Edit where
  span :=
    { start := e.span.start
      stop := some (e.span.past - 1)
      start_pos := e.span.start_pos
      start_le_stop := by
        have := e.span.start_le_past
        unfold Span.IsPlace at h
        simp
        omega }
  content := e.content

variable {lines : Nat} {edits more : List Edit} {p r : Edit}

theorem Clear.perm (h : Clear lines edits) (hp : edits.Perm more) : Clear lines more where
  inside := fun e he => h.inside e (hp.mem_iff.mpr he)
  apart := hp.pairwise h.apart fun hef => hef.symm
  single := hp.pairwise h.single fun hef he hf => (hef hf he).symm

theorem Clear.sublist (h : Clear lines edits) (hs : more.Sublist edits) : Clear lines more where
  inside := fun e he => h.inside e (hs.subset he)
  apart := h.apart.sublist hs
  single := h.single.sublist hs

/-- No other edit starts where a place and a range do. -/
theorem Clear.start_ne (h : Clear lines (p :: r :: edits)) (hpr : p.Fronts r) :
    ∀ f ∈ edits, f.span.start ≠ p.span.start := by
  intro f hf hstart
  obtain ⟨hplace, hrange, hfront⟩ := hpr
  by_cases hf' : f.span.IsPlace
  · have hsingle := (List.pairwise_cons.mp h.single).1 f (by simp [hf])
    exact hsingle hplace hf' hstart.symm
  · have hapart := (List.pairwise_cons.mp (List.pairwise_cons.mp h.apart).2).1 f hf
    have := f.span.start_le_past
    have := r.span.start_le_past
    unfold Span.IsPlace at hf' hrange
    unfold Span.Apart at hapart
    omega

/-- An edit that starts before the line of a place ends there. -/
theorem Clear.past_le (h : Clear lines (p :: r :: edits)) (hpr : p.Fronts r) :
    ∀ f ∈ edits, f.span.start < p.span.start → f.span.past ≤ p.span.start := by
  intro f hf hlt
  have hapart := (List.pairwise_cons.mp h.apart).1 f (by simp [hf])
  have hplace := hpr.place
  unfold Span.IsPlace at hplace
  unfold Span.Apart at hapart
  omega

/-- An edit that starts behind the first line of a range starts behind the last one. -/
theorem Clear.le_start (h : Clear lines (p :: r :: edits)) (hpr : p.Fronts r) :
    ∀ f ∈ edits, p.span.start < f.span.start → r.span.past ≤ f.span.start := by
  intro f hf hlt
  have hapart := (List.pairwise_cons.mp (List.pairwise_cons.mp h.apart).2).1 f hf
  have hstart := hpr.start
  have := f.span.start_le_past
  unfold Span.Apart at hapart
  omega

end Edit

namespace Draft

variable {d : Draft} {head mid tail : List Row} {x : Row} {p r : Edit}

/-- The range first, then the place: both blocks show. -/
theorem HasRows.range_place (h : d.HasRows (head ++ (mid ++ x :: tail))) (hpr : p.Fronts r)
    (hstart : r.span.start = head.length + 1) (hpast : r.span.past = head.length + mid.length + 2) :
    ((d.apply r).apply p).HasRows
      (head ++ (⟨p.content, ['\n']⟩ :: ⟨r.content, x.ending⟩ :: tail)) :=
  (h.replace hstart hpast).insert (hpr.start.trans hstart) hpr.place

/-- The place first, then the range: its block goes in place of the other one and of all rows but
the last. -/
theorem HasRows.place_range (h : d.HasRows (head ++ (mid ++ x :: tail))) (hpr : p.Fronts r)
    (hstart : r.span.start = head.length + 1) (hpast : r.span.past = head.length + mid.length + 2) :
    ((d.apply p).apply r).HasRows (head ++
      (⟨r.content, (List.getLast (⟨p.content, ['\n']⟩ :: mid) (by simp)).ending⟩ :: x :: tail)) := by
  have hplaced : (d.apply p).HasRows (head ++ (⟨p.content, ['\n']⟩ :: mid ++ x :: tail)) := by
    have hpstart := hpr.start.trans hstart
    cases mid with
    | nil => exact h.insert hpstart hpr.place
    | cons m mid => exact h.insert hpstart hpr.place
  rw [← List.dropLast_append_getLast (l := ⟨p.content, ['\n']⟩ :: mid) (by simp),
    List.append_assoc, List.singleton_append] at hplaced
  exact hplaced.replace hstart (by simpa using hpast)

/-- This is what the range without its last line does by itself. -/
theorem HasRows.shortened (h : d.HasRows (head ++ (mid ++ x :: tail))) (hpr : p.Fronts r)
    (hstart : r.span.start = head.length + 1) (hpast : r.span.past = head.length + mid.length + 2) :
    (d.apply (r.shortened hpr.range)).HasRows (head ++
      (⟨r.content, (List.getLast (⟨p.content, ['\n']⟩ :: mid) (by simp)).ending⟩ :: x :: tail)) := by
  have hpast' : (r.shortened hpr.range).span.past = head.length + mid.length + 1 := by
    rw [show (r.shortened hpr.range).span.past = r.span.past - 1 from rfl, hpast]
    rfl
  rcases List.eq_nil_or_concat mid with rfl | ⟨before, last, rfl⟩
  · exact h.insert hstart (hpast'.trans hstart.symm)
  · rw [List.concat_eq_append, List.append_assoc] at h
    simp only [List.concat_eq_append] at hpast' ⊢
    rw [List.getLast_cons (by simp), List.getLast_append_singleton]
    refine h.replace hstart (hpast'.trans ?_)
    simp
    omega

/-- An edit within its draft changes no line before its own. -/
theorem HasRows.exists_agree {rows : List Row} {e : Edit} (h : d.HasRows rows)
    (hin : e.span.past ≤ rows.length + 1) :
    ∃ after, (d.apply e).HasRows after ∧ Row.Agree after rows (e.span.start - 1) ∧
      e.span.start ≤ after.length ∧ (e.span.IsPlace → rows.length ≤ after.length) := by
  have hpos := e.span.start_pos
  have hle := e.span.start_le_past
  by_cases hplace : e.span.IsPlace
  · rcases h.exists_row hpos (by omega) with ⟨head, r, tail, rfl, hstart⟩ | ⟨head, r, rfl, hstart⟩
    · refine ⟨_, h.insert hstart hplace, ?_, ?_, fun _ => by simp⟩
      · rw [hstart]
        exact Row.agree_append head _ _
      · simp
        omega
    · refine ⟨_, h.append hstart hplace, ?_, ?_, fun _ => by simp⟩
      · rw [hstart]
        exact Row.agree_append_ending head _ r _
      · simp
        omega
  · obtain ⟨head, mid, r, tail, rfl, hstart, hpast⟩ := Span.exists_rows hplace hin
    refine ⟨_, h.replace hstart hpast, ?_, ?_, fun hp => absurd hp hplace⟩
    · rw [hstart]
      exact Row.agree_append head _ _
    · simp
      omega

/-- Nor do more edits change a line that they all start behind. -/
theorem HasRows.exists_agree_foldl {rows : List Row} {edits : List Edit} {n : Nat}
    (h : d.HasRows rows) (hin : ∀ e ∈ edits, e.span.past ≤ rows.length + 1)
    (hn : ∀ e ∈ edits, n < e.span.start) (hroom : edits.Pairwise Edit.LeavesRoom) :
    ∃ after, (edits.foldl Draft.apply d).HasRows after ∧ Row.Agree after rows n := by
  induction edits generalizing d rows with
  | nil => exact ⟨rows, h, rfl, rfl⟩
  | cons e edits ih =>
    obtain ⟨he, hroom⟩ := List.pairwise_cons.mp hroom
    obtain ⟨after, hafter, hagree, hlength, hplaced⟩ := h.exists_agree (hin e (by simp))
    have hrest : ∀ f ∈ edits, f.span.past ≤ after.length + 1 := by
      intro f hf
      rcases he f hf with habove | hplace
      · exact (Nat.le_trans habove hlength).trans (Nat.le_succ _)
      · exact (hin f (by simp [hf])).trans (Nat.succ_le_succ (hplaced hplace))
    obtain ⟨final, hfinal, hfrom⟩ := ih hafter hrest (fun f hf => hn f (by simp [hf])) hroom
    have := hn e (by simp)
    exact ⟨final, hfinal, hfrom.trans (hagree.mono (by omega))⟩

end Draft

namespace Edit

variable {lines : Nat} {edits more others : List Edit} {p r : Edit}

/-- The edits around a place and a range behind it: those carried out before the two start behind
the range, those carried out after them end before it. -/
theorem Clear.exists_fromLast (h : Clear lines (p :: r :: (edits ++ more))) (hpr : p.Fronts r) :
    ∃ lower upper, (∀ e ∈ lower, r.span.past ≤ e.span.start ∧ e.span.past ≤ lines + 1) ∧
      (∀ e ∈ upper, e.span.past ≤ p.span.start) ∧
      fromLast (edits ++ p :: r :: more) = lower ++ (p :: r :: upper) ∧
      fromLast (edits ++ r :: p :: more) = lower ++ (r :: p :: upper) := by
  have hne := h.start_ne hpr
  have hstart := hpr.start
  have hnone : ∀ others ⊆ edits ++ more, others.filter (·.span.start = p.span.start) = [] := by
    intro others hsub
    rw [List.filter_eq_nil_iff]
    intro e he
    simpa using hne e (hsub he)
  have hedits := hnone edits (List.subset_append_left _ _)
  have hmore := hnone more (List.subset_append_right _ _)
  refine ⟨fromLast ((edits ++ more).filter (p.span.start < ·.span.start)),
    fromLast ((edits ++ more).filter (·.span.start < p.span.start)), ?_, ?_, ?_, ?_⟩
  · intro e he
    obtain ⟨hmem, hlt⟩ := List.mem_filter.mp ((fromLast_perm _).mem_iff.mp he)
    exact ⟨h.le_start hpr e hmem (by simpa using hlt), h.inside e (by simp [List.mem_append.mp hmem])⟩
  · intro e he
    obtain ⟨hmem, hlt⟩ := List.mem_filter.mp ((fromLast_perm _).mem_iff.mp he)
    exact h.past_le hpr e hmem (by simpa using hlt)
  · rw [fromLast_split _ p.span.start]
    simp [List.filter_append, hedits, hmore, ← hstart]
  · rw [fromLast_split _ p.span.start]
    simp [List.filter_append, hedits, hmore, ← hstart]

/-- A place and a range behind it, in either order among other edits: the texts differ in what the
two make of the rows of the range. -/
theorem edited_swap_eq_iff {s : Text} {head mid tail : List Row} {x : Row}
    (hrows : s.rows = head ++ (mid ++ x :: tail)) (hstart : r.span.start = head.length + 1)
    (hpast : r.span.past = head.length + mid.length + 2)
    (h : Clear s.rows.length (edits ++ p :: r :: more)) (hpr : p.Fronts r) :
    s.edited (edits ++ p :: r :: more) = s.edited (edits ++ r :: p :: more) ↔
      r.content ++ (List.getLast (⟨p.content, ['\n']⟩ :: mid) (by simp)).ending ++ x.line =
        p.content ++ ['\n'] ++ r.content := by
  have hclear : Clear s.rows.length (p :: r :: (edits ++ more)) :=
    h.perm ((List.perm_middle.trans (List.perm_middle.cons p)))
  obtain ⟨lower, upper, hlower, hupper, hplaceFirst, hrangeFirst⟩ := hclear.exists_fromLast hpr
  have hroom := fromLast_leavesRoom h.apart
  rw [hplaceFirst] at hroom
  have hroomUpper : upper.Pairwise LeavesRoom :=
    (List.pairwise_cons.mp (List.pairwise_cons.mp (List.pairwise_append.mp hroom).2.1).2).2
  -- The rows of the range are there when it is its turn, but for the break of the last one.
  have hlast : s.rows = (head ++ mid) ++ x :: tail := by rw [hrows, List.append_assoc]
  have hbelow : ∀ e ∈ lower, head.length + mid.length + 1 < e.span.start := by
    intro e he
    have := (hlower e he).1
    omega
  obtain ⟨after, hafter, hagree⟩ := (Draft.hasRows_ofText s).exists_agree_foldl
    (fun e he => (hlower e he).2) hbelow (List.pairwise_append.mp hroom).1
  rw [hlast] at hagree
  obtain ⟨y, rest, rfl, hline⟩ := hagree.exists_row (by simp)
  rw [List.append_assoc] at hafter
  -- What the edits above make of the rows above does not hang on the order.
  have habove : ∀ e ∈ upper, e.span.past ≤ head.length + 1 := by
    intro e he
    have := hupper e he
    have := hpr.start
    omega
  obtain ⟨front, hfront⟩ := exists_hasRows_foldl habove hroomUpper
  have hplace := hfront (by simp) (hafter.place_range hpr hstart hpast)
  have hrange := hfront (by simp) (hafter.range_place hpr hstart hpast)
  rw [Text.edited, Text.edited, hplaceFirst, hrangeFirst, List.foldl_append, List.foldl_append]
  simp only [List.foldl_cons, hplace.toText, hrange.toText]
  simp only [Row.join_append, Row.join_cons, ← hline, List.append_cancel_left_eq]
  simp only [← List.append_assoc, List.append_cancel_right_eq]

/-- Whether a place or the range behind it comes first matters exactly if it does where there are no
other edits. -/
theorem edited_swap_iff {s : Text} (h : Clear s.rows.length (edits ++ p :: r :: more))
    (hpr : p.Fronts r) :
    s.edited (edits ++ p :: r :: more) = s.edited (edits ++ r :: p :: more) ↔
      s.edited [p, r] = s.edited [r, p] := by
  obtain ⟨head, mid, x, tail, hrows, hstart, hpast⟩ :=
    Span.exists_rows hpr.range (h.inside r (by simp))
  have htwo : Clear s.rows.length ([] ++ p :: r :: []) := h.sublist (by simp)
  rw [edited_swap_eq_iff hrows hstart hpast h hpr]
  exact (edited_swap_eq_iff hrows hstart hpast htwo hpr).symm

/-- Edits that keep clear of each other have different starts, or one is a place and the other a range
behind it. -/
theorem Clear.start_ne_or_fronts {e f : Edit} (h : Clear lines (edits ++ e :: f :: more)) :
    e.span.start ≠ f.span.start ∨ e.Fronts f ∨ f.Fronts e := by
  have hapart := (List.pairwise_cons.mp (List.pairwise_append.mp h.apart).2.1).1 f (by simp)
  have hsingle := (List.pairwise_cons.mp (List.pairwise_append.mp h.single).2.1).1 f (by simp)
  by_cases hstart : e.span.start = f.span.start
  · right
    by_cases he : e.span.IsPlace
    · by_cases hf : f.span.IsPlace
      · exact absurd hstart (hsingle he hf)
      · exact .inl ⟨he, hf, hstart⟩
    · by_cases hf : f.span.IsPlace
      · exact .inr ⟨hf, he, hstart.symm⟩
      · have := e.span.start_le_past
        have := f.span.start_le_past
        unfold Span.IsPlace at he hf
        unfold Span.Apart at hapart
        omega
  · exact .inl hstart

/-- Of two edits either may come first, unless one is a place and the other a range behind it and the
order of the two matters. -/
theorem Clear.edited_swap {s : Text} {e f : Edit}
    (h : Clear s.rows.length (edits ++ e :: f :: more))
    (hfronts : e.Fronts f ∨ f.Fronts e → s.edited [e, f] = s.edited [f, e]) :
    s.edited (edits ++ e :: f :: more) = s.edited (edits ++ f :: e :: more) := by
  rcases h.start_ne_or_fronts with hne | hef | hfe
  · rw [Text.edited, fromLast_swap hne]
    rfl
  · exact (edited_swap_iff h hef).mpr (hfronts (.inl hef))
  · have hperm : (edits ++ e :: f :: more).Perm (edits ++ f :: e :: more) :=
      (List.Perm.swap f e more).append_left edits
    exact ((edited_swap_iff (h.perm hperm) hfe).mpr (hfronts (.inr hfe)).symm).symm

/-- The order of no place and range behind it matters. -/
def Unordered (s : Text) (edits : List Edit) : Prop :=
  ∀ p ∈ edits, ∀ r ∈ edits, p.Fronts r → s.edited [p, r] = s.edited [r, p]

theorem Unordered.perm {s : Text} (h : Unordered s edits) (hp : edits.Perm more) :
    Unordered s more :=
  fun p hp' r hr => h p (hp.mem_iff.mpr hp') r (hp.mem_iff.mpr hr)

/-- Edits behind others can be given in any order, by one exchange after another. -/
theorem edited_append_perm {s : Text} (hp : edits.Perm more) :
    ∀ others : List Edit, Clear s.rows.length (others ++ edits) → Unordered s (others ++ edits) →
      s.edited (others ++ edits) = s.edited (others ++ more) := by
  induction hp with
  | nil => exact fun _ _ _ => rfl
  | cons e _ ih =>
    intro others hclear hunordered
    rw [List.append_cons] at hclear hunordered ⊢
    rw [ih (others ++ [e]) hclear hunordered, ← List.append_cons]
  | swap e f rest =>
    intro others hclear hunordered
    refine hclear.edited_swap ?_
    rintro (hfe | hef)
    · exact hunordered f (by simp) e (by simp) hfe
    · exact (hunordered e (by simp) f (by simp) hef).symm
  | trans hp₁ _ ih₁ ih₂ =>
    intro others hclear hunordered
    have hp := hp₁.append_left others
    rw [ih₁ others hclear hunordered, ih₂ others (hclear.perm hp) (hunordered.perm hp)]

/-- Edits that keep clear of each other give one text in every order exactly if each place and range
behind it do so by themselves. If the place comes first, its block is lost, and the range stops
before its last line. -/
theorem edited_perm_iff (s : Text) (edits : List Edit)
    (h : Clear (Lines.ofText s).lines.length edits) :
    ((∀ more, more.Perm edits → s.edited more = s.edited edits) ↔
      ∀ p ∈ edits, ∀ r ∈ edits, p.Fronts r → s.edited [p, r] = s.edited [r, p]) ∧
    ∀ p ∈ edits, ∀ r ∈ edits, (hpr : p.Fronts r) →
      s.edited [p, r] = s.edited [r.shortened hpr.range] := by
  rw [← s.length_rows] at h
  refine ⟨⟨?_, ?_⟩, ?_⟩
  · intro hall p hp r hr hpr
    have hne : r ≠ p := fun heq => hpr.range (heq ▸ hpr.place)
    obtain ⟨others, hothers⟩ : ∃ others, (p :: r :: others).Perm edits := by
      have hmem : r ∈ edits.erase p := (List.mem_erase_of_ne hne).mpr hr
      exact ⟨(edits.erase p).erase r, (((List.perm_cons_erase hmem).cons p).symm.trans
        (List.perm_cons_erase hp).symm)⟩
    have hclear : Clear s.rows.length ([] ++ p :: r :: others) := h.perm hothers.symm
    rw [← edited_swap_iff hclear hpr]
    exact (hall _ hothers).trans (hall _ ((List.Perm.swap p r others).trans hothers)).symm
  · intro hunordered more hp
    exact (edited_append_perm hp.symm [] h hunordered).symm
  · intro p hp r hr hpr
    obtain ⟨head, mid, x, tail, hrows, hstart, hpast⟩ := Span.exists_rows hpr.range (h.inside r hr)
    have hofText := Draft.hasRows_ofText s
    rw [hrows] at hofText
    have hleads : fromLast [p, r] = [p, r] := by
      simp [fromLast, insertByStart, hpr.start]
    rw [Text.edited, hleads]
    exact (hofText.place_range hpr hstart hpast).toText.trans
      (hofText.shortened hpr hstart hpast).toText.symm

/-- A line that is put in front of itself and kept, and a block at the end. -/
theorem edited_perm_iff_repeated :
    ∃ edits, Clear (Lines.ofText "X".toList).lines.length edits ∧ (∃ p ∈ edits, ∃ r ∈ edits, p.Fronts r) ∧
      ∀ more, more.Perm edits → Text.edited "X".toList more = "X\nX\nend".toList := by
  let edits : List Edit :=
    [⟨{ start := 1 }, "X".toList⟩, ⟨{ start := 1, stop := some 2 }, "X".toList⟩,
      ⟨{ start := 2 }, "end".toList⟩]
  have hclear : Clear (Lines.ofText "X".toList).lines.length edits := by
    constructor <;> decide
  have hunordered : ∀ p ∈ edits, ∀ r ∈ edits, p.Fronts r →
      Text.edited "X".toList [p, r] = Text.edited "X".toList [r, p] := by decide
  obtain ⟨hiff, -⟩ := edited_perm_iff "X".toList edits hclear
  refine ⟨edits, hclear, by decide, ?_⟩
  intro more hmore
  exact (hiff.mpr hunordered more hmore).trans (by decide)

/-- A block in front of a line that is replaced: if it is given first, it is lost, and the line
stays. -/
theorem edited_ne_of_perm :
    ∃ (s : Text) (edits more : List Edit), Clear (Lines.ofText s).lines.length edits ∧
      more.Perm edits ∧ s.edited edits = "R\na\n".toList ∧ s.edited more = "I\nR\n".toList := by
  let place : Edit := ⟨{ start := 1 }, "I".toList⟩
  let range : Edit := ⟨{ start := 1, stop := some 2 }, "R".toList⟩
  refine ⟨"a\n".toList, [place, range], [range, place], ?_, List.Perm.swap _ _ _, by decide, by decide⟩
  constructor <;> decide

end Edit

end DocTree
