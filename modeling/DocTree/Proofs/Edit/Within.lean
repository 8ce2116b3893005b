import DocTree.Proofs.Edit.Splice

/-!
# Edits within their draft

An edit that counts no line past the end of a draft takes exactly the lines and breaks it names: no
part of the draft is cut short. Edits carried out from the last line upward stay within the draft
that each of them meets, and a block once put there stays. An edit that reaches into the one before it
takes the block away again.
-/
namespace DocTree

namespace Draft

/-- The draft has all lines that an edit counts, and all breaks between those it takes away. -/
structure Covers (d : Draft) (e : Edit) : Prop where
  lines : e.span.past ≤ d.lines.length + 1
  breaks : ¬ e.span.IsPlace → e.span.past ≤ d.breaks.length + 2

/-- Each of some edits, carried out one after another, is covered by the draft that it meets. -/
def CoversAll : Draft → List Edit → Prop
  | _, [] => True
  | d, e :: rest => d.Covers e ∧ (d.apply e).CoversAll rest

theorem HasRows.length_lines {d : Draft} {rows : List Row} (h : d.HasRows rows) :
    d.lines.length = rows.length := by
  rw [h.lines, List.length_map]

theorem HasRows.covers {d : Draft} {rows : List Row} {e : Edit} (h : d.HasRows rows)
    (hin : e.span.past ≤ rows.length + 1) : d.Covers e := by
  have hlength := h.length
  constructor
  · rw [h.length_lines]
    exact hin
  · intro _
    omega

/-- An edit above some rows leaves them where they are, behind its block. What it makes of the rows
before them does not depend on them. -/
theorem exists_apply_above {head : List Row} {e : Edit} (hin : e.span.past ≤ head.length + 1) :
    ∃ before ending after, e.span.start = before.length + 1 ∧
      (e.span.IsPlace → (before ++ ⟨e.content, ending⟩ :: after).length = head.length + 1) ∧
      ∀ {d : Draft} {keep : List Row}, keep ≠ [] → d.HasRows (head ++ keep) →
        (d.apply e).HasRows ((before ++ ⟨e.content, ending⟩ :: after) ++ keep) := by
  have hpos := e.span.start_pos
  have hle := e.span.start_le_past
  by_cases hplace : e.span.IsPlace
  · -- A row of `keep` at least comes after the place, so the block does not go to the end.
    have hbefore : (head.take (e.span.start - 1)).length = e.span.start - 1 := by
      rw [List.length_take]
      omega
    have hstart : e.span.start = (head.take (e.span.start - 1)).length + 1 := by omega
    refine ⟨head.take (e.span.start - 1), ['\n'], head.drop (e.span.start - 1), hstart, ?_, ?_⟩
    · intro _
      simp only [List.length_append, List.length_cons, List.length_take, List.length_drop]
      omega
    · intro d keep hkeep h
      obtain ⟨r, keep, rfl⟩ := List.exists_cons_of_ne_nil hkeep
      rw [← List.take_append_drop (e.span.start - 1) head, List.append_assoc] at h
      rw [List.append_assoc, List.cons_append]
      cases hafter : head.drop (e.span.start - 1) with
      | nil =>
        rw [hafter] at h
        exact h.insert hstart hplace
      | cons first rest =>
        rw [hafter] at h
        exact h.insert hstart hplace
  · obtain ⟨before, mid, r, tail, rfl, hstart, hpast⟩ := Span.exists_rows hplace hin
    refine ⟨before, r.ending, tail, hstart, fun h => absurd h hplace, ?_⟩
    intro d keep _ h
    rw [show before ++ (mid ++ r :: tail) ++ keep = before ++ (mid ++ r :: (tail ++ keep)) by simp]
      at h
    rw [List.append_assoc]
    exact h.replace hstart hpast

/-- One edit leaves a draft of rows, its block among them at its start. -/
theorem HasRows.exists_block {d : Draft} {rows : List Row} {e : Edit} (h : d.HasRows rows)
    (hin : e.span.past ≤ rows.length + 1) :
    ∃ before ending after, (d.apply e).HasRows (before ++ ⟨e.content, ending⟩ :: after) ∧
      e.span.start = before.length + 1 := by
  have hpos := e.span.start_pos
  have hle := e.span.start_le_past
  by_cases hplace : e.span.IsPlace
  · rcases h.exists_row hpos (by omega) with ⟨head, r, tail, rfl, hstart⟩ | ⟨head, r, rfl, hstart⟩
    · exact ⟨head, _, r :: tail, h.insert hstart hplace, hstart⟩
    · refine ⟨head ++ [⟨r.line, ['\n']⟩], [], [], ?_, by simpa using hstart⟩
      rw [List.append_assoc]
      exact h.append hstart hplace
  · obtain ⟨head, mid, r, tail, rfl, hstart, hpast⟩ := Span.exists_rows hplace hin
    exact ⟨head, r.ending, tail, h.replace hstart hpast, hstart⟩

/-- An edit that takes the line on which a block was just put leaves nothing of the block. -/
theorem apply_taken {d : Draft} {e f : Edit} (hin : e.span.start ≤ d.lines.length + 1)
    (hstart : f.span.start ≤ e.span.start) (hpast : e.span.start < f.span.past) (content : Text) :
    (d.apply ⟨e.span, content⟩).apply f = (d.apply e).apply f := by
  have hpos := e.span.start_pos
  have hhead : (d.lines.take (e.span.start - 1)).length = e.span.start - 1 := by
    rw [List.length_take]
    omega
  have htail (block : Text) (tail : List Text) :
      (d.lines.take (e.span.start - 1) ++ block :: tail).drop (f.span.past - 1) =
        tail.drop (f.span.past - 1 - e.span.start) := by
    rw [List.drop_append, List.drop_eq_nil_of_le (by omega), hhead, List.nil_append,
      show f.span.past - 1 - (e.span.start - 1) = f.span.past - 1 - e.span.start + 1 by omega,
      List.drop_succ_cons]
  have hlines (block : Text) : ((d.apply ⟨e.span, block⟩).apply f).lines =
      d.lines.take (f.span.start - 1) ++ f.content ::
        (d.lines.drop (e.span.past - 1)).drop (f.span.past - 1 - e.span.start) := by
    simp only [apply]
    rw [List.take_append_of_le_length (by omega), List.take_take, Nat.min_eq_left (by omega), htail]
  rw [Draft.mk.injEq]
  exact ⟨(hlines content).trans (hlines e.content).symm, rfl⟩

end Draft

namespace Edit

variable {d : Draft} {edits : List Edit}

/-- Rows below all edits still to come are there in the end, behind rows that do not depend on
them. -/
theorem exists_hasRows_foldl {head : List Row} (hin : ∀ e ∈ edits, e.span.past ≤ head.length + 1)
    (hroom : edits.Pairwise LeavesRoom) :
    ∃ before, ∀ {d : Draft} {keep : List Row}, keep ≠ [] → d.HasRows (head ++ keep) →
      (edits.foldl Draft.apply d).HasRows (before ++ keep) := by
  induction edits generalizing head with
  | nil => exact ⟨head, fun _ h => h⟩
  | cons e edits ih =>
    obtain ⟨he, hroom⟩ := List.pairwise_cons.mp hroom
    obtain ⟨before, ending, after, hstart, hlength, happly⟩ :=
      Draft.exists_apply_above (hin e (by simp))
    have hrest : ∀ f ∈ edits, f.span.past ≤ (before ++ ⟨e.content, ending⟩ :: after).length + 1 := by
      intro f hf
      rcases he f hf with habove | hplace
      · unfold Above at habove
        simp
        omega
      · rw [hlength hplace]
        exact (hin f (by simp [hf])).trans (Nat.le_succ _)
    obtain ⟨front, hfront⟩ := ih hrest hroom
    exact ⟨front, fun hkeep h => hfront hkeep (happly hkeep h)⟩

/-- Edits within a draft, each above those before it, stay within it, and all their blocks show. -/
theorem coversAll_foldl {rows : List Row} (h : d.HasRows rows)
    (hin : ∀ e ∈ edits, e.span.past ≤ rows.length + 1) (habove : edits.Pairwise Above) :
    d.CoversAll edits ∧ ∀ e ∈ edits, e.content <:+: (edits.foldl Draft.apply d).toText := by
  induction edits generalizing d rows with
  | nil => exact ⟨trivial, by simp⟩
  | cons e edits ih =>
    obtain ⟨ha, habove⟩ := List.pairwise_cons.mp habove
    obtain ⟨before, ending, after, hrows, hstart⟩ := h.exists_block (hin e (by simp))
    have hpasts : ∀ f ∈ edits, f.span.past ≤ before.length + 1 := by
      intro f hf
      have : f.span.past ≤ e.span.start := ha f hf
      omega
    obtain ⟨hcovers, hshown⟩ := ih hrows (fun f hf => by
      have := hpasts f hf
      simp
      omega) habove
    refine ⟨⟨h.covers (hin e (by simp)), hcovers⟩, ?_⟩
    intro f hf
    rcases List.mem_cons.mp hf with heq | hf
    · obtain ⟨front, hfront⟩ := exists_hasRows_foldl hpasts (habove.imp Or.inl)
      have hall := hfront (by simp) hrows
      refine ⟨Row.join front, ending ++ Row.join after, ?_⟩
      rw [List.foldl_cons, hall.toText, heq]
      simp
    · exact hshown f hf

/-- Edits of a text that can follow each other are within it, and all their blocks show. -/
theorem coversAll_fromLast {text : Text} (hin : ∀ e ∈ edits, e.span.past ≤ text.rows.length + 1)
    (hfollows : edits.Pairwise Follows) :
    (Draft.ofText text).CoversAll (fromLast edits) ∧
      ∀ e ∈ edits, e.content <:+: text.edited edits := by
  have hperm := fromLast_perm edits
  obtain ⟨hcovers, hshown⟩ := coversAll_foldl (Draft.hasRows_ofText text)
    (fun e he => hin e (hperm.mem_iff.mp he)) (fromLast_above hfollows)
  exact ⟨hcovers, fun e he => hshown e (hperm.mem_iff.mpr he)⟩

/-- Of two edits that reach into each other one has no say in what comes out: whatever block it has,
the other one takes it away. -/
theorem edited_pair_of_not_apart {text : Text} {e f : Edit}
    (he : e.span.start ≤ text.rows.length + 1) (hf : f.span.start ≤ text.rows.length + 1)
    (h : ¬ e.span.Apart f.span) :
    (∀ content, text.edited [⟨e.span, content⟩, f] = text.edited [e, f]) ∨
      ∀ content, text.edited [e, ⟨f.span, content⟩] = text.edited [e, f] := by
  obtain ⟨hef, hfe⟩ := not_or.mp h
  have hlength := (Draft.hasRows_ofText text).length_lines
  rcases Nat.lt_or_ge e.span.start f.span.start with hlt | hge
  · right
    intro content
    have horder (g : Edit) (hg : g.span = f.span) : fromLast [e, g] = [g, e] := by
      simp [fromLast, insertByStart, hg]
      omega
    simp only [Text.edited, horder f rfl, horder ⟨f.span, content⟩ rfl, List.foldl_cons, List.foldl_nil]
    rw [Draft.apply_taken (by omega) (by omega) (by omega)]
  · left
    intro content
    have horder (g : Edit) (hg : g.span = e.span) : fromLast [g, f] = [g, f] := by
      simp [fromLast, insertByStart, hg, hge]
    simp only [Text.edited, horder e rfl, horder ⟨e.span, content⟩ rfl, List.foldl_cons, List.foldl_nil]
    rw [Draft.apply_taken (by omega) (by omega) (by omega)]

end Edit

end DocTree
