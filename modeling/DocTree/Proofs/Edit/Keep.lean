import DocTree.Proofs.Edit.Apply

/-!
# Edits that take nothing away

Edits over ranges that hold their blocks already leave a text as it is to the last break; edits at
places only add to it. Together they keep the text, in order, and make it longer by the blocks that
are put somewhere. So nothing changes exactly if none of them is a place.
-/
namespace DocTree

namespace Row

/-- Rows without the break after the last of them. -/
def block : List Row → Text
  | [] => []
  | [r] => r.line
  | r :: next :: rest => r.line ++ r.ending ++ block (next :: rest)

theorem block_append_singleton (rows : List Row) (r : Row) :
    block (rows ++ [r]) = join rows ++ r.line := by
  induction rows with
  | nil => rfl
  | cons first rows ih =>
    cases rows with
    | nil => simp [block]
    | cons next rest =>
      rw [List.cons_append, List.cons_append, block, ← List.cons_append, ih]
      simp

/-- Rows that are the same before a line, but for the break after the last of them. -/
structure Agree (rows more : List Row) (n : Nat) : Prop where
  lines : (rows.map line).take n = (more.map line).take n
  whole : rows.take (n - 1) = more.take (n - 1)

variable {rows more others : List Row} {m n : Nat}

theorem Agree.trans (h : Agree rows more n) (ho : Agree more others n) : Agree rows others n :=
  ⟨h.lines.trans ho.lines, h.whole.trans ho.whole⟩

theorem Agree.mono (h : Agree rows more n) (hm : m ≤ n) : Agree rows more m := by
  constructor
  · have := congrArg (List.take m) h.lines
    rwa [List.take_take, List.take_take, Nat.min_eq_left hm] at this
  · have := congrArg (List.take (m - 1)) h.whole
    rwa [List.take_take, List.take_take, Nat.min_eq_left (by omega)] at this

theorem agree_append (head tail rest : List Row) :
    Agree (head ++ tail) (head ++ rest) head.length := by
  constructor
  · simp
  · rw [List.take_append_of_le_length (by omega), List.take_append_of_le_length (by omega)]

/-- The break after the last row does not count. -/
theorem agree_append_ending (head rest : List Row) (r : Row) (ending : Text) :
    Agree (head ++ ⟨r.line, ending⟩ :: rest) (head ++ [r]) (head.length + 1) := by
  constructor
  · simp [List.take_append]
  · simp

/-- Rows that agree with a list of rows as far as some row has that row's line at its place. -/
theorem Agree.exists_row {head tail : List Row} {r : Row} (h : Agree rows (head ++ r :: tail) n)
    (hn : head.length < n) : ∃ r' rest, rows = head ++ r' :: rest ∧ r'.line = r.line := by
  have hagree := h.mono (m := head.length + 1) hn
  have hlines := hagree.lines
  have hlength := congrArg List.length hlines
  simp only [List.length_take, List.length_map, List.length_append, List.length_cons] at hlength
  obtain ⟨front, r', rest, rfl, hfront⟩ := exists_split rows (n := head.length) (by omega)
  have hhead : front = head := by
    have := hagree.whole
    rwa [Nat.add_sub_cancel, List.take_left' hfront, List.take_left] at this
  subst hhead
  refine ⟨r', rest, rfl, ?_⟩
  simpa [List.take_append] using hlines

end Row

def Text.slice (s : Text) (span : Span) : Text :=
  Row.block ((s.rows.take (span.past - 1)).drop (span.start - 1))

namespace Edit

/-- The edit takes nothing from a text: it is a place of it, or over lines that hold its block
already. -/
structure Keeps (text : Text) (e : Edit) : Prop where
  inside : e.span.past ≤ text.rows.length + 1
  slice : ¬ e.span.IsPlace → text.slice e.span = e.content

/-- What the edit adds to such a text. A block that is put somewhere brings a break with it. -/
def added (e : Edit) : Text :=
  if e.span.IsPlace then e.content ++ ['\n'] else []

variable {text : Text} {e : Edit}

theorem added_place (h : e.span.IsPlace) : e.added = e.content ++ ['\n'] :=
  if_pos h

theorem added_range (h : ¬ e.span.IsPlace) : e.added = [] :=
  if_neg h

theorem added_eq_nil : e.added = [] ↔ ¬ e.span.IsPlace := by
  by_cases h : e.span.IsPlace
  · simp [added_place h, h]
  · simp [added_range h, h]

/-- The rows around those that hold the block of an edit. -/
theorem Keeps.exists_rows (h : e.Keeps text) (hrange : ¬ e.span.IsPlace) :
    ∃ head mid r tail, text.rows = head ++ (mid ++ r :: tail) ∧ e.span.start = head.length + 1 ∧
      e.span.past = head.length + mid.length + 2 ∧ Row.join mid ++ r.line = e.content := by
  obtain ⟨head, mid, r, tail, hsplit, hstart, hpast⟩ := Span.exists_rows hrange h.inside
  refine ⟨head, mid, r, tail, hsplit, hstart, hpast, ?_⟩
  have hrows : text.rows = head ++ (mid ++ [r]) ++ tail := by simp [hsplit]
  have hblock : (text.rows.take (e.span.past - 1)).drop (e.span.start - 1) = mid ++ [r] := by
    rw [hrows, List.take_left' (by simp; omega), List.drop_left' (by omega)]
  rw [← h.slice hrange, Text.slice, hblock, Row.block_append_singleton]

/-- Rows that keep a text and have grown by so many characters. Before a line they are those of the
text, so what happens there can still be said of the text. -/
structure Extends (text : Text) (rows : List Row) (n grown : Nat) : Prop where
  sublist : text.Sublist (Row.join rows)
  length : (Row.join rows).length = text.length + grown
  agree : Row.Agree rows text.rows n

variable {d : Draft} {rows : List Row} {n grown : Nat}

/-- An edit over lines that hold its block changes no character. -/
theorem Extends.replace (h : Extends text rows n grown) (hd : d.HasRows rows) (he : e.Keeps text)
    (hrange : ¬ e.span.IsPlace) (hn : e.span.past ≤ n + 1) :
    ∃ after, (d.apply e).HasRows after ∧ Extends text after (e.span.start - 1) grown := by
  obtain ⟨head, mid, r, tail, hsplit, hstart, hpast, hcontent⟩ := he.exists_rows hrange
  have hagree := h.agree
  rw [hsplit, ← List.append_assoc] at hagree
  obtain ⟨r', rest, rfl, hline⟩ := hagree.exists_row (by rw [List.length_append]; omega)
  rw [List.append_assoc] at hd h
  have hjoin : Row.join (head ++ ⟨e.content, r'.ending⟩ :: rest) =
      Row.join (head ++ (mid ++ r' :: rest)) := by
    simp [← hcontent, hline]
  refine ⟨_, hd.replace hstart hpast, ?_, ?_, ?_⟩
  · rw [hjoin]
    exact h.sublist
  · rw [hjoin]
    exact h.length
  · rw [hstart, Nat.add_sub_cancel]
    exact (Row.agree_append head _ _).trans (h.agree.mono (by omega))

/-- An edit at a place adds its block and a break. -/
theorem Extends.insert (h : Extends text rows n grown) (hd : d.HasRows rows) (he : e.Keeps text)
    (hplace : e.span.IsPlace) (hn : e.span.past ≤ n + 1) :
    ∃ after, (d.apply e).HasRows after ∧
      Extends text after (e.span.start - 1) (grown + (e.content ++ ['\n']).length) := by
  have hpos := e.span.start_pos
  have hpast : e.span.past = e.span.start := hplace
  have hinside := he.inside
  have hlength := congrArg List.length h.agree.lines
  simp only [List.length_take, List.length_map] at hlength
  have hstarts : e.span.start ≤ rows.length + 1 := by omega
  rcases hd.exists_row hpos hstarts with ⟨head, r, tail, rfl, hstart⟩ | ⟨head, r, rfl, hstart⟩
  · refine ⟨_, hd.insert hstart hplace, ?_, ?_, ?_⟩
    · refine h.sublist.trans ?_
      simp
    · have := h.length
      simp at this ⊢
      omega
    · rw [hstart, Nat.add_sub_cancel]
      exact (Row.agree_append head _ _).trans (h.agree.mono (by omega))
  · have hending := hd.ending_last
    refine ⟨_, hd.append hstart hplace, ?_, ?_, ?_⟩
    · refine h.sublist.trans ?_
      simp [hending]
    · have := h.length
      simp [hending] at this ⊢
      omega
    · rw [hstart]
      exact (Row.agree_append_ending head _ r _).trans (h.agree.mono (by omega))

/-- Edits carried out one after another, each above those before it, add what they put there. -/
theorem Extends.foldl_apply {edits : List Edit} (h : Extends text rows n grown)
    (hd : d.HasRows rows) (he : ∀ e ∈ edits, e.Keeps text)
    (hn : ∀ e ∈ edits, e.span.past ≤ n + 1) (habove : edits.Pairwise Above) :
    text.Sublist (edits.foldl Draft.apply d).toText ∧
      (edits.foldl Draft.apply d).toText.length =
        text.length + grown + (edits.flatMap added).length := by
  induction edits generalizing d rows n grown with
  | nil =>
    rw [List.foldl_nil, hd.toText]
    exact ⟨h.sublist, h.length⟩
  | cons e edits ih =>
    obtain ⟨ha, habove⟩ := List.pairwise_cons.mp habove
    have hpos := e.span.start_pos
    have hstep : ∃ after, (d.apply e).HasRows after ∧
        Extends text after (e.span.start - 1) (grown + e.added.length) := by
      by_cases hplace : e.span.IsPlace
      · rw [added_place hplace]
        exact h.insert hd (he e (by simp)) hplace (hn e (by simp))
      · rw [added_range hplace]
        exact h.replace hd (he e (by simp)) hplace (hn e (by simp))
    obtain ⟨after, hafter, hext⟩ := hstep
    have hrest := ih hext hafter (fun f hf => he f (by simp [hf])) ?_ habove
    · simpa [Nat.add_assoc] using hrest
    · intro f hf
      have : f.span.past ≤ e.span.start := ha f hf
      omega

variable {edits : List Edit}

/-- What takes nothing away keeps a text and adds the blocks that it puts somewhere. -/
theorem edited_extends (h : ∀ e ∈ edits, e.Keeps text) (hfollows : edits.Pairwise Follows) :
    text.Sublist (text.edited edits) ∧
      (text.edited edits).length = text.length + (edits.flatMap added).length := by
  have hperm := fromLast_perm edits
  have hstart : Extends text text.rows text.rows.length 0 := by
    refine ⟨?_, ?_, rfl, rfl⟩ <;> simp
  have hall := hstart.foldl_apply (Draft.hasRows_ofText text)
    (fun e he => h e (hperm.mem_iff.mp he)) (fun e he => (h e (hperm.mem_iff.mp he)).inside)
    (fromLast_above hfollows)
  rwa [(hperm.flatMap_right added).length_eq] at hall

/-- Such edits change nothing exactly if none of them is a place. -/
theorem edited_eq_iff (h : ∀ e ∈ edits, e.Keeps text) (hfollows : edits.Pairwise Follows) :
    text.edited edits = text ↔ ∀ e ∈ edits, ¬ e.span.IsPlace := by
  obtain ⟨hsublist, hlength⟩ := edited_extends h hfollows
  have hnone : (edits.flatMap added).length = 0 ↔ ∀ e ∈ edits, ¬ e.span.IsPlace := by
    simp only [List.length_eq_zero_iff, List.flatMap_eq_nil_iff, added_eq_nil]
  rw [← hnone]
  constructor
  · intro heq
    rw [heq] at hlength
    omega
  · intro hzero
    exact (hsublist.eq_of_length (by omega)).symm

end Edit

end DocTree
