import DocTree.Markdown.Content
import DocTree.Proofs.Markdown.Guarded
import Mathlib.Data.List.Basic
import Mathlib.Data.List.TakeWhile

/-!
# What a link may point to

The grammar of what stands between the parentheses of a link: nothing, a destination, or a
destination and a title, with blanks around each. A link ends at the first parenthesis up to which
the grammar holds.
-/
namespace DocTree.Markdown

def IsPlain (c : Char) : Prop :=
  32 < c.toNat ∧ c.toNat ≠ 127 ∧ c ≠ '\\' ∧ c ≠ '(' ∧ c ≠ ')'

/-- A destination without brackets, behind some parentheses that are still open. It closes these
and each that it opens, and at no place are more than 32 open. -/
inductive IsBare : Nat → Text → Prop where
  | nil : IsBare 0 []
  | escape {depth : Nat} {s : Text} {c : Char} (hc : c ≠ ' ') (h : IsBare depth s) :
      IsBare depth ('\\' :: c :: s)
  | opening {depth : Nat} {s : Text} (hdepth : depth < 32) (h : IsBare (depth + 1) s) :
      IsBare depth ('(' :: s)
  | closing {depth : Nat} {s : Text} (h : IsBare depth s) : IsBare (depth + 1) (')' :: s)
  | plain {depth : Nat} {s : Text} {c : Char} (hc : IsPlain c) (h : IsBare depth s) :
      IsBare depth (c :: s)

inductive IsDestination : Text → Prop where
  | bare {s : Text} (h : IsBare 0 s) (hne : s ≠ []) (hhead : s.head? ≠ some '<')
      (hallowed : Destination.isAllowed s) : IsDestination s
  | bracketed {s : Text}
      (h : Guarded (fun c => c = '>' ∨ c = '\n' ∨ c = '<') s)
      (hallowed : Destination.isAllowed s) : IsDestination ('<' :: s ++ ['>'])

def EndsBare (c : Char) : Prop :=
  c.toNat ≤ 32 ∨ c.toNat = 127 ∨ c = ')'

namespace Destination

variable {depth : Nat} {s written after : Text} {c : Char}

theorem bracketed?_eq_some_iff : bracketed? s = some (written, after) ↔
    Guarded (fun c => c = '>' ∨ c = '\n' ∨ c = '<') written ∧ s = written ++ '>' :: after := by
  rw [bracketed?_eq, readGuarded_eq_some_iff (by decide)]
  simp

theorem bare?_stop (hc : EndsBare c) (rest : Text) :
    bare? 0 (c :: rest) = some ([], c :: rest) := by
  have hescape : c ≠ '\\' := by
    rintro rfl
    simp [EndsBare] at hc
  have hstop : (c.toNat ≤ 32 || c.toNat = 127 || (c = ')' && (0 : Nat) = 0)) = true := by
    rcases hc with h | h | h <;> simp [h]
  rw [bare?, if_pos hstop, if_pos rfl]
  · simp [hescape]
  · simp [hescape]

theorem bare?_complete (h : IsBare depth written) (hc : EndsBare c) (rest : Text) :
    bare? depth (written ++ c :: rest) = some (written, c :: rest) := by
  induction h with
  | nil => exact bare?_stop hc rest
  | @escape depth s d hd _ ih =>
    rw [List.cons_append, List.cons_append, bare?, ih]
    · rfl
    · simpa using hd
  | @opening depth s hdepth _ ih =>
    simp [bare?, ih, hdepth]
  | @closing depth s _ ih =>
    simp [bare?, ih]
  | @plain depth s d hd _ ih =>
    obtain ⟨hprintable, hdelete, hescape, hopen, hclose⟩ := hd
    simp [bare?, ih, hescape, hopen, hclose, hdelete, hprintable]

theorem bare?_sound (h : bare? depth s = some (written, after)) (hafter : after ≠ []) :
    IsBare depth written ∧ s = written ++ after := by
  fun_induction bare? depth s generalizing written with
  | case1 =>
    cases h
    exact absurd rfl hafter
  | case3 =>
    cases h
    exact ⟨.nil, rfl⟩
  | case5 depth d rest hd ih =>
    obtain ⟨t, hread, rfl⟩ := extended_eq_some ('\\' :: d :: ·) h
    obtain ⟨hbare, rfl⟩ := ih hread
    exact ⟨.escape hd hbare, rfl⟩
  | case6 =>
    cases h
    exact ⟨.nil, rfl⟩
  | case9 depth rest hdepth _ _ _ ih =>
    obtain ⟨t, hread, rfl⟩ := extended_eq_some ('(' :: ·) h
    obtain ⟨hbare, rfl⟩ := ih hread
    exact ⟨.opening (Nat.lt_of_not_le hdepth) hbare, rfl⟩
  | case10 depth rest _ _ hstop _ ih =>
    obtain ⟨t, hread, rfl⟩ := extended_eq_some (')' :: ·) h
    obtain ⟨hbare, rfl⟩ := ih hread
    obtain ⟨outer, rfl⟩ : ∃ outer, depth = outer + 1 :=
      Nat.exists_eq_succ_of_ne_zero (by simpa using hstop)
    exact ⟨.closing hbare, rfl⟩
  | case11 depth d rest _ hescape hstop hopen hclose ih =>
    obtain ⟨t, hread, rfl⟩ := extended_eq_some (d :: ·) h
    obtain ⟨hbare, rfl⟩ := ih hread
    obtain ⟨hprintable, hdelete⟩ : 32 < d.toNat ∧ d.toNat ≠ 127 := by
      simpa [hclose] using hstop
    exact ⟨.plain ⟨hprintable, hdelete, ne_escape hafter hescape, hopen, hclose⟩ hbare, rfl⟩
  | case2 | case4 | case7 | case8 => cases h

theorem read?_of_head (h : s.head? ≠ some '<') :
    read? s = (bare? 0 s).filter fun (written, _) => !written.isEmpty := by
  unfold read?
  split
  · exact absurd rfl h
  · rfl

def allowed? (s : Text) : Option (Text × Text) :=
  (read? s).filter fun (written, _) => isAllowed written

theorem allowed?_complete (h : IsDestination s) (hc : EndsBare c) (rest : Text) :
    ∃ written, allowed? (s ++ c :: rest) = some (written, c :: rest) := by
  cases h with
  | bare h hne hhead hallowed =>
    have hread : read? (s ++ c :: rest) = some (s, c :: rest) := by
      rw [read?_of_head (by rwa [List.head?_append_of_ne_nil _ hne]), bare?_complete h hc]
      simpa using hne
    exact ⟨s, by simp [allowed?, hread, hallowed]⟩
  | @bracketed inner h hallowed =>
    have hread : read? ('<' :: inner ++ ['>'] ++ c :: rest) = some (inner, c :: rest) :=
      bracketed?_eq_some_iff.mpr ⟨h, by simp⟩
    exact ⟨inner, by simp only [allowed?, hread, Option.filter_some, hallowed, if_true]⟩

theorem allowed?_sound (h : allowed? s = some (written, after)) (hafter : after ≠ []) :
    ∃ destination, IsDestination destination ∧ s = destination ++ after := by
  obtain ⟨hread, hallowed⟩ := Option.filter_eq_some_iff.mp h
  by_cases hhead : s.head? = some '<'
  · obtain ⟨rest, rfl⟩ := List.head?_eq_some_iff.mp hhead
    obtain ⟨hguarded, rfl⟩ := bracketed?_eq_some_iff.mp hread
    exact ⟨_, .bracketed hguarded hallowed, by simp⟩
  · rw [read?_of_head hhead] at hread
    obtain ⟨hend, hne⟩ := Option.filter_eq_some_iff.mp hread
    obtain ⟨hbare, rfl⟩ := bare?_sound hend hafter
    have hne : written ≠ [] := by simpa using hne
    rw [List.head?_append_of_ne_nil _ hne] at hhead
    exact ⟨written, .bare hbare hne hhead hallowed, rfl⟩

end Destination

inductive IsTitle : Text → Prop where
  | quoted {s : Text} {mark : Char} (hmark : mark = '"' ∨ mark = '\'')
      (h : Guarded (fun c => c = mark) s) : IsTitle (mark :: s ++ [mark])
  | parenthesized {s : Text} (h : Guarded (fun c => c = ')' ∨ c = '(') s) :
      IsTitle ('(' :: s ++ [')'])

namespace Title

variable {s after : Text}

theorem quoted?_eq_some_iff {mark : Char} {title : Text} (hmark : mark = '"' ∨ mark = '\'') :
    closed? mark s = some (title, after) ↔
      Guarded (fun c => c = mark) title ∧ s = title ++ mark :: after := by
  rw [closed?_eq, readGuarded_eq_some_iff (by rintro rfl; simp at hmark)]
  rcases hmark with rfl | rfl <;> simp

theorem parenthesized?_eq_some_iff {title : Text} :
    closed? ')' s = some (title, after) ↔
      Guarded (fun c => c = ')' ∨ c = '(') title ∧ s = title ++ ')' :: after := by
  rw [closed?_eq, readGuarded_eq_some_iff (by decide)]
  simp

theorem read?_complete {title : Text} (h : IsTitle title) (after : Text) :
    ∃ shown, read? (title ++ after) = some (shown, after) := by
  cases h with
  | @quoted s mark hmark h =>
    refine ⟨s, ?_⟩
    have hclosed := (quoted?_eq_some_iff hmark (s := s ++ mark :: after)).mpr ⟨h, rfl⟩
    rcases hmark with rfl | rfl
    · simpa [read?] using hclosed
    · simpa [read?] using hclosed
  | @parenthesized s h =>
    have hclosed := (parenthesized?_eq_some_iff (s := s ++ ')' :: after)).mpr ⟨h, rfl⟩
    exact ⟨s, by simpa [read?] using hclosed⟩

theorem read?_sound {shown : Text} (h : read? s = some (shown, after)) :
    ∃ title, IsTitle title ∧ s = title ++ after := by
  unfold read? at h
  split at h
  · obtain ⟨hguarded, rfl⟩ := (quoted?_eq_some_iff (.inl rfl)).mp h
    exact ⟨_, .quoted (.inl rfl) hguarded, by simp⟩
  · obtain ⟨hguarded, rfl⟩ := (quoted?_eq_some_iff (.inr rfl)).mp h
    exact ⟨_, .quoted (.inr rfl) hguarded, by simp⟩
  · obtain ⟨hguarded, rfl⟩ := parenthesized?_eq_some_iff.mp h
    exact ⟨_, .parenthesized hguarded, by simp⟩
  · cases h

end Title

def AreGaps (s : Text) : Prop :=
  ∀ c ∈ s, isLinkGap c

inductive IsTarget : Text → Prop where
  | empty {gaps : Text} (h : AreGaps gaps) : IsTarget gaps
  | untitled {before destination after : Text} (hbefore : AreGaps before)
      (h : IsDestination destination) (hafter : AreGaps after) :
      IsTarget (before ++ destination ++ after)
  | titled {before destination between title after : Text} (hbefore : AreGaps before)
      (h : IsDestination destination) (hbetween : AreGaps between) (hne : between ≠ [])
      (htitle : IsTitle title) (hafter : AreGaps after) :
      IsTarget (before ++ destination ++ between ++ title ++ after)

theorem endsBare_of_gap {c : Char} (h : isLinkGap c) : EndsBare c := by
  have hblank : c = ' ' ∨ c = '\t' ∨ c = '\n' := by
    simpa [isLinkGap, Text.isGap, or_assoc] using h
  rcases hblank with rfl | rfl | rfl <;> exact .inl (by decide)

theorem AreGaps.dropWhile {gaps : Text} (h : AreGaps gaps) {c : Char}
    (hc : isLinkGap c = false) (rest : Text) :
    (gaps ++ c :: rest).dropWhile isLinkGap = c :: rest := by
  rw [List.dropWhile_append_of_pos h, List.dropWhile_cons_of_neg (by simp [hc])]

/-- A text is some blanks and what follows them. -/
theorem exists_gaps (s : Text) : ∃ gaps, AreGaps gaps ∧ s = gaps ++ s.dropWhile isLinkGap :=
  ⟨s.takeWhile isLinkGap, fun _ hc => List.mem_takeWhile_imp hc,
    List.takeWhile_append_dropWhile.symm⟩

/-- A destination begins with no blank. -/
theorem IsDestination.head {s : Text} (h : IsDestination s) :
    ∃ c rest, s = c :: rest ∧ isLinkGap c = false := by
  cases h with
  | bracketed => exact ⟨_, _, rfl, rfl⟩
  | bare h hne =>
    cases h with
    | nil => exact absurd rfl hne
    | escape | opening => exact ⟨_, _, rfl, rfl⟩
    | @plain _ s c hc =>
      refine ⟨c, s, rfl, ?_⟩
      by_contra hgap
      rcases endsBare_of_gap (by simpa using hgap) with h | h | h
      · exact absurd hc.1 (by omega)
      · exact hc.2.1 h
      · exact hc.2.2.2.2 h

/-- A title begins with no blank. -/
theorem IsTitle.head {s : Text} (h : IsTitle s) :
    ∃ c rest, s = c :: rest ∧ isLinkGap c = false := by
  cases h with
  | quoted hmark =>
    refine ⟨_, _, rfl, ?_⟩
    rcases hmark with rfl | rfl <;> rfl
  | parenthesized => exact ⟨_, _, rfl, rfl⟩

/-- Blanks and a parenthesis end a destination. -/
theorem AreGaps.endsBare {gaps : Text} (h : AreGaps gaps) (rest : Text) :
    ∃ c more, gaps ++ ')' :: rest = c :: more ∧ EndsBare c := by
  cases gaps with
  | nil => exact ⟨_, _, rfl, .inr (.inr rfl)⟩
  | cons c gaps => exact ⟨_, _, rfl, endsBare_of_gap (h c (by simp))⟩

namespace Content.Target

variable {s rest gaps : Text}

theorem close_eq_closed_iff : close s = .closed rest ↔ s = ')' :: rest := by
  unfold close
  split
  · simp
  · rename_i hother
    simp only [reduceCtorEq, false_iff]
    exact fun h => hother rest h

/-- Reads a title, if blanks part it from the destination, and the end of the link. -/
def afterDestination (after : Text) : Target :=
  let start := after.dropWhile isLinkGap
  match if start.length < after.length then Title.read? start else none with
  | some (_, rest) => close (rest.dropWhile isLinkGap)
  | none => close start

theorem read_eq (s : Text) : read s =
    match s.dropWhile isLinkGap with
    | [] => .missing
    | start =>
      match Destination.allowed? start with
      | none => close start
      | some (_, after) => afterDestination after := rfl

theorem read_blanks (h : AreGaps gaps) (rest : Text) :
    read (gaps ++ ')' :: rest) = .closed rest := by
  rw [read_eq, h.dropWhile rfl]
  rfl

theorem read_destination {destination : Text} (hgaps : AreGaps gaps)
    (h : IsDestination destination) {c : Char} (hc : EndsBare c) (rest : Text) :
    read (gaps ++ (destination ++ c :: rest)) = afterDestination (c :: rest) := by
  obtain ⟨written, hread⟩ := Destination.allowed?_complete h hc rest
  obtain ⟨d, more, rfl, hd⟩ := h.head
  rw [List.cons_append] at hread ⊢
  rw [read_eq, hgaps.dropWhile hd]
  simp only [hread]

theorem afterDestination_untitled (h : AreGaps gaps) (rest : Text) :
    afterDestination (gaps ++ ')' :: rest) = .closed rest := by
  have htitle : Title.read? (')' :: rest) = none := rfl
  simp only [afterDestination, h.dropWhile (c := ')') rfl, htitle, ite_self]
  rfl

theorem afterDestination_titled {title after : Text} (h : AreGaps gaps) (hne : gaps ≠ [])
    (htitle : IsTitle title) (hafter : AreGaps after) (rest : Text) :
    afterDestination (gaps ++ (title ++ (after ++ ')' :: rest))) = .closed rest := by
  obtain ⟨shown, hread⟩ := Title.read?_complete htitle (after ++ ')' :: rest)
  obtain ⟨c, more, rfl, hc⟩ := htitle.head
  rw [List.cons_append] at hread ⊢
  have hshort : (c :: (more ++ (after ++ ')' :: rest))).length <
      (gaps ++ c :: (more ++ (after ++ ')' :: rest))).length := by
    have := List.length_pos_of_ne_nil hne
    rw [List.length_append]
    omega
  simp only [afterDestination, h.dropWhile hc, if_pos hshort, hread]
  rw [hafter.dropWhile rfl]
  rfl

theorem afterDestination_sound {after : Text} (h : afterDestination after = .closed rest) :
    ∃ between, AreGaps between ∧ (after = between ++ ')' :: rest ∨
      between ≠ [] ∧ ∃ title gaps, IsTitle title ∧ AreGaps gaps ∧
        after = between ++ (title ++ (gaps ++ ')' :: rest))) := by
  obtain ⟨between, hbetween, hafter⟩ := exists_gaps after
  refine ⟨between, hbetween, ?_⟩
  unfold afterDestination at h
  dsimp only at h
  split at h
  · rename_i shown more hread
    right
    split at hread
    · rename_i hshort
      obtain ⟨title, htitle, hstart⟩ := Title.read?_sound hread
      obtain ⟨gaps, hgaps, hmore⟩ := exists_gaps more
      rw [close_eq_closed_iff] at h
      refine ⟨?_, title, gaps, htitle, hgaps, ?_⟩
      · rintro rfl
        rw [List.nil_append] at hafter
        rw [← hafter] at hshort
        exact absurd hshort (Nat.lt_irrefl _)
      · rw [← h, ← hmore, ← hstart]
        exact hafter
    · cases hread
  · left
    rw [← close_eq_closed_iff.mp h]
    exact hafter

/-- A link ends at a parenthesis exactly if what stands before it is a target. -/
theorem read_eq_closed_iff :
    read s = .closed rest ↔ ∃ inner, IsTarget inner ∧ s = inner ++ ')' :: rest := by
  constructor
  · intro h
    obtain ⟨before, hbefore, hs⟩ := exists_gaps s
    rw [read_eq] at h
    split at h
    · cases h
    rw [hs]
    split at h
    · rw [close_eq_closed_iff.mp h]
      exact ⟨before, .empty hbefore, rfl⟩
    · rename_i hread
      obtain ⟨between, hbetween, hafter⟩ := afterDestination_sound h
      obtain ⟨destination, hdestination, hstart⟩ := Destination.allowed?_sound hread (by
        rcases hafter with hafter | ⟨-, title, gaps, -, -, hafter⟩ <;> simp [hafter])
      rw [hstart]
      rcases hafter with rfl | ⟨hne, title, gaps, htitle, hgaps, rfl⟩
      · exact ⟨_, .untitled hbefore hdestination hbetween, by simp⟩
      · exact ⟨_, .titled hbefore hdestination hbetween hne htitle hgaps, by simp⟩
  · rintro ⟨inner, hinner, rfl⟩
    cases hinner with
    | empty h => exact read_blanks h rest
    | @untitled before destination after hbefore h hafter =>
      obtain ⟨c, more, heq, hc⟩ := hafter.endsBare rest
      rw [List.append_assoc, List.append_assoc, heq, read_destination hbefore h hc, ← heq,
        afterDestination_untitled hafter]
    | @titled before destination between title after hbefore h hbetween hne htitle hafter =>
      obtain ⟨c, between, rfl⟩ := List.exists_cons_of_ne_nil hne
      have hc := endsBare_of_gap (hbetween c (by simp))
      simp only [List.append_assoc]
      rw [List.cons_append, read_destination hbefore h hc, ← List.cons_append,
        afterDestination_titled hbetween hne htitle hafter]

/-- A text is a target exactly if a parenthesis behind it closes the link. -/
theorem isTarget_iff : IsTarget s ↔ read (s ++ [')']) = .closed [] := by
  rw [read_eq_closed_iff]
  constructor
  · intro h
    exact ⟨s, h, rfl⟩
  · rintro ⟨inner, h, heq⟩
    rwa [List.append_cancel_right heq]

instance : Decidable (IsTarget s) :=
  decidable_of_iff _ isTarget_iff.symm

end Content.Target

end DocTree.Markdown
