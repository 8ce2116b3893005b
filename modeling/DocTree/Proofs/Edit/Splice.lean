import DocTree.Proofs.Edit.Apply

/-!
# What edits come to, line by line

Edits that fit a text can be read off it line by line, whatever order they come in: in front of a
line the block that is put there, then the line itself or what takes its place, then its break. The
break of a line that is taken away goes with it, apart from the last line of a range, whose break
follows the block. No line or break outside the ranges changes, and every block shows.
-/
namespace DocTree.Edit

def placedAt? (edits : List Edit) (n : Nat) : Option Edit :=
  edits.find? fun e => e.span.IsPlace && e.span.start == n

def covering? (edits : List Edit) (n : Nat) : Option Edit :=
  edits.find? fun e => e.span.start ≤ n && n < e.span.past

def shownBefore (edits : List Edit) (n : Nat) : Text :=
  match placedAt? edits n with
  | some e => e.content ++ ['\n']
  | none => []

def shownFor (edits : List Edit) (n : Nat) (r : Row) : Text :=
  match covering? edits n with
  | some e => (if e.span.start = n then e.content else []) ++
      (if e.span.past = n + 1 then r.ending else [])
  | none => r.line ++ r.ending

/-- Rows after edits, said line by line. The number is that of the first row. -/
def spliced (edits : List Edit) : Nat → List Row → Text
  | n, [] =>
    match placedAt? edits n with
    | some e => '\n' :: e.content
    | none => []
  | n, r :: rest => shownBefore edits n ++ shownFor edits n r ++ spliced edits (n + 1) rest

theorem spliced_cons (edits : List Edit) (n : Nat) (r : Row) (rest : List Row) :
    spliced edits n (r :: rest) =
      shownBefore edits n ++ shownFor edits n r ++ spliced edits (n + 1) rest := rfl

/-- Edits that a text of so many lines can take at once. -/
structure Fit (lines : Nat) (edits : List Edit) : Prop where
  inside : ∀ e ∈ edits, e.span.past ≤ lines + 1
  apart : edits.Pairwise fun e f => e.span.Apart f.span
  single : edits.Pairwise fun e f =>
    e.span.IsPlace → f.span.IsPlace → e.span.start ≠ f.span.start
  rangeFirst : edits.Pairwise fun e f =>
    e.span.IsPlace → ¬ f.span.IsPlace → e.span.start ≠ f.span.start

theorem placedAt?_cons (e : Edit) (edits : List Edit) (n : Nat) :
    placedAt? (e :: edits) n =
      if e.span.IsPlace ∧ e.span.start = n then some e else placedAt? edits n := by
  rw [placedAt?, List.find?_cons]
  by_cases h : e.span.IsPlace ∧ e.span.start = n
  · simp [h]
  · rw [if_neg h]
    split <;> simp_all [placedAt?]

theorem covering?_cons (e : Edit) (edits : List Edit) (n : Nat) :
    covering? (e :: edits) n =
      if e.span.start ≤ n ∧ n < e.span.past then some e else covering? edits n := by
  rw [covering?, List.find?_cons]
  by_cases h : e.span.start ≤ n ∧ n < e.span.past
  · simp [h]
  · rw [if_neg h]
    have hfalse : (decide (e.span.start ≤ n) && decide (n < e.span.past)) = false := by
      simpa using h
    rw [hfalse]
    rfl

theorem placedAt?_eq_none {edits : List Edit} {n : Nat} (h : ∀ e ∈ edits, e.span.start < n) :
    placedAt? edits n = none := by
  refine List.find?_eq_none.mpr ?_
  intro e he
  have := h e he
  simp
  omega

theorem covering?_eq_none {edits : List Edit} {n : Nat} (h : ∀ e ∈ edits, e.span.past ≤ n) :
    covering? edits n = none := by
  refine List.find?_eq_none.mpr ?_
  intro e he
  have := h e he
  simp
  omega

def Spent (edits : List Edit) (n : Nat) : Prop :=
  ∀ e ∈ edits, e.span.start < n ∧ e.span.past ≤ n

theorem spliced_spent {edits : List Edit} {n : Nat} (h : Spent edits n) (rows : List Row) :
    spliced edits n rows = Row.join rows := by
  have hplace : placedAt? edits n = none := placedAt?_eq_none fun e he => (h e he).1
  have hcover : covering? edits n = none := covering?_eq_none fun e he => (h e he).2
  induction rows generalizing n with
  | nil => simp [spliced, hplace]
  | cons r rest ih =>
    have hnext : Spent edits (n + 1) := by
      intro e he
      have := h e he
      omega
    have hrest := ih hnext (placedAt?_eq_none fun e he => (hnext e he).1)
      (covering?_eq_none fun e he => (hnext e he).2)
    simp [spliced, shownBefore, shownFor, hplace, hcover, hrest]

/-- Edits that agree on some rows show the same there. -/
theorem spliced_append_congr {edits more : List Edit} {n : Nat} {head tail rest : List Row}
    (h : ∀ m, m < n + head.length →
      placedAt? edits m = placedAt? more m ∧ covering? edits m = covering? more m)
    (ht : spliced edits (n + head.length) tail = spliced more (n + head.length) rest) :
    spliced edits n (head ++ tail) = spliced more n (head ++ rest) := by
  induction head generalizing n with
  | nil => simpa using ht
  | cons r head ih =>
    have hl : n + (r :: head).length = n + 1 + head.length := by simp; omega
    rw [hl] at h ht
    have hr := h n (by omega)
    simp [spliced, shownBefore, shownFor, hr.1, hr.2, ih h ht]

section

variable {e : Edit} {edits : List Edit}

theorem spent_of_above (h : ∀ f ∈ edits, e.Above f) {n : Nat} (hn : e.span.start < n) :
    Spent edits n := by
  intro f hf
  have := f.span.start_le_past
  have := h f hf
  unfold Above at this
  omega

theorem spent_cons {n : Nat} (h : Spent edits n) (hs : e.span.start < n) (hp : e.span.past ≤ n) :
    Spent (e :: edits) n := by
  intro f hf
  rcases List.mem_cons.mp hf with rfl | hf
  · exact ⟨hs, hp⟩
  · exact h f hf

/-- Before its lines an edit has no say. -/
theorem agree_before {n : Nat} (hn : n < e.span.start) :
    placedAt? edits n = placedAt? (e :: edits) n ∧
      covering? edits n = covering? (e :: edits) n := by
  constructor
  · rw [placedAt?_cons, if_neg (by omega)]
  · rw [covering?_cons, if_neg (by omega)]

/-- Inside a range nothing shows but the break of its last line. -/
theorem spliced_covered (habove : ∀ f ∈ edits, e.Above f) {n : Nat} (mid tail : List Row) (r : Row)
    (hn : e.span.start < n) (hp : e.span.past = n + mid.length + 1) :
    spliced (e :: edits) n (mid ++ r :: tail) = r.ending ++ Row.join tail := by
  have hcover : covering? (e :: edits) n = some e := by rw [covering?_cons, if_pos (by omega)]
  have hplace : placedAt? (e :: edits) n = none := by
    rw [placedAt?_cons, if_neg (by omega)]
    exact placedAt?_eq_none fun f hf => (spent_of_above habove hn f hf).1
  have hne : e.span.start ≠ n := by omega
  induction mid generalizing n with
  | nil =>
    have hlast : e.span.past = n + 1 := by simpa using hp
    have hspent : Spent (e :: edits) (n + 1) :=
      spent_cons (spent_of_above habove (by omega)) (by omega) (by omega)
    simp [spliced, shownBefore, shownFor, hplace, hcover, hne, hlast, spliced_spent hspent]
  | cons m mid ih =>
    simp only [List.length_cons] at hp
    have hlast : e.span.past ≠ n + 1 := by omega
    have hrest : spliced (e :: edits) (n + 1) (mid ++ r :: tail) = r.ending ++ Row.join tail := by
      refine ih (by omega) (by omega) ?_ ?_ (by omega)
      · rw [covering?_cons, if_pos (by omega)]
      · rw [placedAt?_cons, if_neg (by omega)]
        exact placedAt?_eq_none fun f hf => (spent_of_above habove (by omega) f hf).1
    simp [spliced, shownBefore, shownFor, hplace, hcover, hne, hlast, hrest]

/-- An edit over a range, carried out before others above it. -/
theorem spliced_replace (habove : ∀ f ∈ edits, e.Above f) {head mid tail : List Row} {r : Row}
    (hs : e.span.start = head.length + 1) (hp : e.span.past = head.length + mid.length + 2) :
    spliced edits 1 (head ++ ⟨e.content, r.ending⟩ :: tail) =
      spliced (e :: edits) 1 (head ++ (mid ++ r :: tail)) := by
  refine spliced_append_congr (fun m hm => agree_before (by omega)) ?_
  have hstart : e.span.start = 1 + head.length := by omega
  have hplace : placedAt? (e :: edits) (1 + head.length) = placedAt? edits (1 + head.length) := by
    rw [placedAt?_cons, if_neg (by unfold Span.IsPlace; omega)]
  have hnone : covering? edits (1 + head.length) = none :=
    covering?_eq_none fun f hf => by simpa [Above, hstart] using habove f hf
  have hsome : covering? (e :: edits) (1 + head.length) = some e := by
    rw [covering?_cons, if_pos (by omega)]
  have hspent := spent_of_above habove (n := 1 + head.length + 1) (by omega)
  cases mid with
  | nil =>
    have hlast : e.span.past = 1 + head.length + 1 := by simp at hp; omega
    have hspent' : Spent (e :: edits) (1 + head.length + 1) :=
      spent_cons hspent (by omega) (by omega)
    simp [spliced, shownBefore, shownFor, hplace, hnone, hsome, hstart, hlast,
      spliced_spent hspent, spliced_spent hspent']
  | cons m mid =>
    simp only [List.length_cons] at hp
    have hlast : e.span.past ≠ 1 + head.length + 1 := by omega
    have hinside := spliced_covered habove (n := 1 + head.length + 1) mid tail r (by omega)
      (by omega)
    simp [spliced, shownBefore, shownFor, hplace, hnone, hsome, hstart, hlast,
      spliced_spent hspent, hinside]

theorem placedAt?_of_single {n : Nat} (hn : e.span.start = n)
    (h : ∀ f ∈ edits, f.span.IsPlace → f.span.start ≠ e.span.start) :
    placedAt? edits n = none := by
  refine List.find?_eq_none.mpr ?_
  intro f hf
  have := h f hf
  simp_all

/-- A block in front of a row, put there before others above it. -/
theorem spliced_insert (habove : ∀ f ∈ edits, e.Above f) {head tail : List Row} {r : Row}
    (hs : e.span.start = head.length + 1) (hp : e.span.IsPlace)
    (hsingle : ∀ f ∈ edits, f.span.IsPlace → f.span.start ≠ e.span.start) :
    spliced edits 1 (head ++ ⟨e.content, ['\n']⟩ :: r :: tail) =
      spliced (e :: edits) 1 (head ++ r :: tail) := by
  refine spliced_append_congr (fun m hm => agree_before (by omega)) ?_
  have hstart : e.span.start = 1 + head.length := by omega
  have hpast : e.span.past = 1 + head.length := by unfold Span.IsPlace at hp; omega
  have hplace : placedAt? (e :: edits) (1 + head.length) = some e := by
    rw [placedAt?_cons, if_pos ⟨hp, hstart⟩]
  have hplace' := placedAt?_of_single hstart hsingle
  have hcover' : covering? edits (1 + head.length) = none :=
    covering?_eq_none fun f hf => by simpa [Above, hstart] using habove f hf
  have hcover : covering? (e :: edits) (1 + head.length) = none := by
    rw [covering?_cons, if_neg (by omega), hcover']
  have hspent : Spent edits (1 + head.length + 1) := spent_of_above habove (by omega)
  have hspent' : Spent (e :: edits) (1 + head.length + 1) :=
    spent_cons hspent (by omega) (by omega)
  rw [spliced_cons, spliced_spent hspent, spliced_cons, spliced_spent hspent']
  simp [shownBefore, shownFor, hplace, hplace', hcover, hcover']

/-- A range that ends with the last row shows the break of that row. -/
theorem shownFor_ending {n : Nat} (h : ∀ f ∈ edits, f.span.past ≤ n + 1) (line ending : Text) :
    shownFor edits n ⟨line, ending⟩ = shownFor edits n ⟨line, []⟩ ++ ending := by
  cases hc : covering? edits n with
  | none => simp [shownFor, hc]
  | some f =>
    have hmem : f ∈ edits := List.mem_of_find?_eq_some hc
    have hin := List.find?_some hc
    have hle := h f hmem
    simp only [Bool.and_eq_true, decide_eq_true_eq] at hin
    have hlast : f.span.past = n + 1 := by omega
    simp [shownFor, hc, hlast]

/-- A block after the last row, put there before others above it. -/
theorem spliced_append (habove : ∀ f ∈ edits, e.Above f) {head : List Row} {r : Row}
    (hr : r.ending = []) (hs : e.span.start = head.length + 2) (hp : e.span.IsPlace)
    (hsingle : ∀ f ∈ edits, f.span.IsPlace → f.span.start ≠ e.span.start) :
    spliced edits 1 (head ++ [⟨r.line, ['\n']⟩, ⟨e.content, []⟩]) =
      spliced (e :: edits) 1 (head ++ [r]) := by
  refine spliced_append_congr (fun m hm => agree_before (by omega)) ?_
  have hagree : placedAt? edits (1 + head.length) = placedAt? (e :: edits) (1 + head.length) ∧
      covering? edits (1 + head.length) = covering? (e :: edits) (1 + head.length) :=
    agree_before (by omega)
  have hstart : e.span.start = 1 + head.length + 1 := by omega
  have hplace : placedAt? (e :: edits) (1 + head.length + 1) = some e := by
    rw [placedAt?_cons, if_pos ⟨hp, hstart⟩]
  have hplace' := placedAt?_of_single hstart hsingle
  have hpast : ∀ f ∈ edits, f.span.past ≤ 1 + head.length + 1 := by
    intro f hf
    simpa [Above, hstart] using habove f hf
  have hend : placedAt? edits (1 + head.length + 1 + 1) = none :=
    placedAt?_eq_none fun f hf => (spent_of_above habove (by omega) f hf).1
  obtain ⟨line, ending⟩ := r
  subst hr
  rw [spliced_cons, shownFor_ending hpast line ['\n']]
  simp [spliced, shownBefore, shownFor, hagree, hplace, hplace', hend, covering?_eq_none hpast]

end

/-- Edits carried out one after another, each above those before it, show what they are said to. -/
theorem toText_foldl_apply {d : Draft} {rows : List Row} {edits : List Edit} (hd : d.HasRows rows)
    (hin : ∀ e ∈ edits, e.span.past ≤ rows.length + 1) (habove : edits.Pairwise Above)
    (hsingle : edits.Pairwise fun e f =>
      e.span.IsPlace → f.span.IsPlace → e.span.start ≠ f.span.start) :
    (edits.foldl Draft.apply d).toText = spliced edits 1 rows := by
  induction edits generalizing d rows with
  | nil =>
    have hspent : Spent [] 1 := by simp [Spent]
    rw [List.foldl_nil, hd.toText, spliced_spent hspent]
  | cons e edits ih =>
    obtain ⟨ha, habove⟩ := List.pairwise_cons.mp habove
    obtain ⟨hs, hsingle⟩ := List.pairwise_cons.mp hsingle
    have hpos := e.span.start_pos
    have hse := e.span.start_le_past
    have hpast := hin e (by simp)
    have hpasts : ∀ f ∈ edits, f.span.past ≤ e.span.start := fun f hf => ha f hf
    rw [List.foldl_cons]
    by_cases hplace : e.span.IsPlace
    · have hother : ∀ f ∈ edits, f.span.IsPlace → f.span.start ≠ e.span.start :=
        fun f hf hfp => (hs f hf hplace hfp).symm
      have hstarts : e.span.start ≤ rows.length + 1 := by omega
      rcases hd.exists_row hpos hstarts with ⟨head, r, tail, rfl, hstart⟩ | ⟨head, r, rfl, hstart⟩
      · rw [ih (hd.insert hstart hplace) ?_ habove hsingle,
          spliced_insert ha hstart hplace hother]
        intro f hf
        have := hpasts f hf
        simp
        omega
      · rw [ih (hd.append hstart hplace) ?_ habove hsingle,
          spliced_append ha hd.ending_last hstart hplace hother]
        intro f hf
        have := hpasts f hf
        simp
        omega
    · obtain ⟨head, mid, r, tail, rfl, hstart, hstop⟩ := Span.exists_rows hplace hpast
      rw [ih (hd.replace hstart hstop) ?_ habove hsingle, spliced_replace ha hstart hstop]
      intro f hf
      have := hpasts f hf
      simp
      omega

theorem Fit.follows {lines : Nat} {edits : List Edit} (h : Fit lines edits) :
    edits.Pairwise Follows := by
  refine (h.apart.and (h.single.and h.rangeFirst)).imp ?_
  rintro e f ⟨hapart, hsingle, hfirst⟩
  refine ⟨hapart, ?_⟩
  intro hplace hstart
  by_cases hf : f.span.IsPlace
  · exact hf
  · exact absurd hstart.symm (hfirst hplace hf)

theorem Fit.placedAt?_perm {lines : Nat} {edits more : List Edit} (h : Fit lines edits)
    (hp : edits.Perm more) (n : Nat) : placedAt? edits n = placedAt? more n := by
  refine find?_eq_of_perm hp ?_
  intro a ha b hb hpa hpb
  simp only [Bool.and_eq_true, decide_eq_true_eq, beq_iff_eq] at hpa hpb
  rcases eq_or_of_pairwise h.single ha hb with heq | hab | hba
  · exact heq
  · exact absurd (hpa.2.trans hpb.2.symm) (hab hpa.1 hpb.1)
  · exact absurd (hpb.2.trans hpa.2.symm) (hba hpb.1 hpa.1)

theorem Fit.covering?_perm {lines : Nat} {edits more : List Edit} (h : Fit lines edits)
    (hp : edits.Perm more) (n : Nat) : covering? edits n = covering? more n := by
  refine find?_eq_of_perm hp ?_
  intro a ha b hb hpa hpb
  simp only [Bool.and_eq_true, decide_eq_true_eq] at hpa hpb
  rcases eq_or_of_pairwise h.apart ha hb with heq | hab | hba
  · exact heq
  · unfold Span.Apart at hab
    omega
  · unfold Span.Apart at hba
    omega

theorem Fit.spliced_perm {lines : Nat} {edits more : List Edit} (h : Fit lines edits)
    (hp : edits.Perm more) (n : Nat) (rows : List Row) :
    spliced edits n rows = spliced more n rows := by
  induction rows generalizing n with
  | nil => rw [spliced, spliced, h.placedAt?_perm hp]
  | cons r rows ih =>
    rw [spliced_cons, spliced_cons, ih, shownBefore, shownBefore, shownFor, shownFor,
      h.placedAt?_perm hp, h.covering?_perm hp]

/-- Edits that fit a text give it back line by line as they are said to: in front of each line the
block put there, then the line or what takes its place, then its break; a block after the last line
comes at the very end. -/
theorem edited_eq_spliced (s : Text) (edits : List Edit)
    (h : Fit (Lines.ofText s).lines.length edits) : s.edited edits = spliced edits 1 s.rows := by
  have hperm := fromLast_perm edits
  rw [h.spliced_perm hperm.symm 1 s.rows]
  refine toText_foldl_apply (Draft.hasRows_ofText s) ?_ (fromLast_above h.follows) ?_
  · intro e he
    rw [s.length_rows]
    exact h.inside e (hperm.mem_iff.mp he)
  · refine hperm.symm.pairwise h.single ?_
    intro e f hef hf he
    exact (hef he hf).symm

/-- A range and a place at one line between mixed breaks, and a block at the end. -/
theorem edited_eq_spliced_mixed :
    ∃ edits, Fit (Lines.ofText "a\rb\r\nc".toList).lines.length edits ∧
      Text.edited "a\rb\r\nc".toList edits = "a\rnew\nX\r\nc\nend".toList := by
  let edits : List Edit :=
    [⟨{ start := 2, stop := some 3 }, "X".toList⟩, ⟨{ start := 4 }, "end".toList⟩,
      ⟨{ start := 2 }, "new".toList⟩]
  have h : Fit (Lines.ofText "a\rb\r\nc".toList).lines.length edits := by
    constructor <;> decide
  exact ⟨edits, h, (edited_eq_spliced _ _ h).trans (by decide)⟩

end DocTree.Edit
