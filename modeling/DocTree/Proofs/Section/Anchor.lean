import DocTree.Section
import Mathlib.Data.List.Chain
import Mathlib.Tactic.ByContra

/-!
# Anchors of titles

The anchor of a title is made of its runs of letters and digits, in small letters and with one hyphen
between two of them. The other characters of the title have no say in it. The same anchor comes out
in three passes over the whole title: a hyphen for every run of other characters, small letters, and
no hyphen at either end.
-/
namespace DocTree

namespace Text

/-- A text is cut into runs of letters and digits, as long as they can be, and what is around them. -/
inductive HasRuns : Text → List Text → Prop
  | none {gap : Text} (hgap : ∀ c ∈ gap, ¬ c.isAlphanum) : HasRuns gap []
  | run {gap run rest : Text} {runs : List Text} (hgap : ∀ c ∈ gap, ¬ c.isAlphanum)
      (hne : run ≠ []) (hrun : ∀ c ∈ run, c.isAlphanum)
      (hend : ¬ rest.head?.any Char.isAlphanum) (h : HasRuns rest runs) : HasRuns (gap ++ run ++ rest) (run :: runs)

def runs : Text → List Text
  | [] => []
  | c :: rest =>
    if c.isAlphanum then
      if rest.head?.any Char.isAlphanum then (runs rest).modifyHead (c :: ·) else [c] :: runs rest
    else runs rest

def small (s : Text) : Text :=
  s.map Char.toLower

def hyphened : Text → Text
  | [] => []
  | c :: rest =>
    if c.isAlphanum then c :: hyphened rest
    else if rest.head?.all Char.isAlphanum then '-' :: hyphened rest
    else hyphened rest

/-- Takes away a hyphen in front, and one at the end of what is left. -/
def unedged (s : Text) : Text :=
  let tail := if s.head? = some '-' then s.tail else s
  if tail.getLast? = some '-' then tail.dropLast else tail

variable {s rest run gap : Text} {runs' : List Text} {c : Char}

theorem runs_cons_gap (hc : ¬ c.isAlphanum) (rest : Text) : runs (c :: rest) = runs rest := by
  rw [runs, if_neg hc]

theorem runs_gap_append (hgap : ∀ c ∈ gap, ¬ c.isAlphanum) (rest : Text) :
    runs (gap ++ rest) = runs rest := by
  induction gap with
  | nil => rfl
  | cons c gap ih =>
    obtain ⟨hc, hgap⟩ := List.forall_mem_cons.mp hgap
    rw [List.cons_append, runs_cons_gap hc, ih hgap]

theorem runs_run_append (hne : run ≠ []) (hrun : ∀ c ∈ run, c.isAlphanum)
    (hend : ¬ rest.head?.any Char.isAlphanum) : runs (run ++ rest) = run :: runs rest := by
  induction run with
  | nil => exact absurd rfl hne
  | cons c run ih =>
    obtain ⟨hc, hrun⟩ := List.forall_mem_cons.mp hrun
    rw [List.cons_append, runs, if_pos hc]
    cases run with
    | nil => rw [List.nil_append, if_neg hend]
    | cons d run =>
      have hnext : ((d :: run) ++ rest).head?.any Char.isAlphanum := hrun d (by simp)
      rw [if_pos hnext, ih (by simp) hrun, List.modifyHead_cons]

/-- What stands in front of a text without a letter or digit is no part of its runs. -/
theorem HasRuns.cons_gap (hc : ¬ c.isAlphanum) (h : HasRuns s runs') : HasRuns (c :: s) runs' := by
  cases h with
  | none hgap => exact .none (List.forall_mem_cons.mpr ⟨hc, hgap⟩)
  | @run gap run rest runs' hgap hne hrun hend h =>
    have hlonger : ∀ d ∈ c :: gap, ¬ d.isAlphanum := List.forall_mem_cons.mpr ⟨hc, hgap⟩
    exact HasRuns.run hlonger hne hrun hend h

/-- A letter or digit in front of another makes the first run longer. -/
theorem HasRuns.cons_run (hc : c.isAlphanum) (hnext : s.head?.any Char.isAlphanum)
    (h : HasRuns s runs') : HasRuns (c :: s) (runs'.modifyHead (c :: ·)) := by
  cases h with
  | none hgap =>
    cases s with
    | nil => cases hnext
    | cons d s => exact absurd hnext (hgap d (by simp))
  | @run gap run rest runs' hgap hne hrun hend h =>
    cases gap with
    | nil =>
      have hlonger : ∀ d ∈ c :: run, d.isAlphanum := List.forall_mem_cons.mpr ⟨hc, hrun⟩
      exact HasRuns.run hgap (List.cons_ne_nil c run) hlonger hend h
    | cons d gap => exact absurd hnext (hgap d (by simp))

theorem hasRuns_runs (s : Text) : HasRuns s s.runs := by
  induction s with
  | nil => exact .none (by simp)
  | cons c s ih =>
    rw [runs]
    split
    · rename_i hc
      split
      · rename_i hnext
        exact ih.cons_run hc hnext
      · rename_i hstop
        have hself : ∀ d ∈ [c], d.isAlphanum := by simpa using hc
        exact HasRuns.run (List.forall_mem_nil _) (List.cons_ne_nil c []) hself hstop ih
    · rename_i hc
      exact ih.cons_gap hc

/-- A text has one list of runs. -/
theorem hasRuns_iff : HasRuns s runs' ↔ runs' = s.runs := by
  constructor
  · intro h
    induction h with
    | @none gap hgap => rw [← List.append_nil gap, runs_gap_append hgap, runs]
    | run hgap hne hrun hend _ ih =>
      rw [List.append_assoc, runs_gap_append hgap, runs_run_append hne hrun hend, ih]
  · rintro rfl
    exact hasRuns_runs s

def AreWords (words : List Text) : Prop :=
  ∀ word ∈ words, word ≠ [] ∧ ∀ c ∈ word, c.isAlphanum

def joined (words : List Text) : Text :=
  List.intercalate ['-'] words

theorem areWords_runs (s : Text) : AreWords s.runs := by
  have hruns := hasRuns_runs s
  generalize s.runs = runs' at hruns
  induction hruns with
  | none => exact List.forall_mem_nil _
  | run _ hne hrun _ _ ih => exact List.forall_mem_cons.mpr ⟨⟨hne, hrun⟩, ih⟩

theorem joined_cons {word : Text} {words : List Text} :
    joined (word :: words) = word ++ if words = [] then [] else '-' :: joined words := by
  cases words with
  | nil => simp [joined]
  | cons next words => simp [joined, List.intercalate_cons_cons]

theorem not_isAlphanum_hyphen : ¬ '-'.isAlphanum := by decide

/-- The words are the runs again once they have been joined. -/
theorem runs_joined {words : List Text} (h : AreWords words) : runs (joined words) = words := by
  induction words with
  | nil => rfl
  | cons word words ih =>
    obtain ⟨⟨hne, hword⟩, hwords⟩ := List.forall_mem_cons.mp h
    rw [joined_cons]
    split
    · rename_i hnil
      rw [runs_run_append hne hword (by simp), hnil, runs]
    · have hhyphen : ¬ ('-' :: joined words).head?.any Char.isAlphanum := not_isAlphanum_hyphen
      rw [runs_run_append hne hword hhyphen, runs_cons_gap not_isAlphanum_hyphen, ih hwords]

theorem head?_joined {words : List Text} (h : AreWords words) :
    (joined words).head? ≠ some '-' := by
  cases words with
  | nil => simp [joined]
  | cons word words =>
    obtain ⟨⟨hne, hword⟩, -⟩ := List.forall_mem_cons.mp h
    rw [joined_cons, List.head?_append_of_ne_nil _ hne]
    intro hhead
    exact not_isAlphanum_hyphen (hword '-' (List.mem_of_head? hhead))

theorem getLast?_joined {words : List Text} (h : AreWords words) :
    (joined words).getLast? ≠ some '-' ∧ (words ≠ [] → joined words ≠ []) := by
  induction words with
  | nil => simp [joined]
  | cons word words ih =>
    obtain ⟨⟨hne, hword⟩, hwords⟩ := List.forall_mem_cons.mp h
    obtain ⟨hlast, hjoined⟩ := ih hwords
    refine ⟨?_, by simp [joined_cons, hne]⟩
    rw [joined_cons]
    split
    · intro hhyphen
      rw [List.append_nil] at hhyphen
      exact not_isAlphanum_hyphen (hword '-' (List.mem_of_getLast? hhyphen))
    · rename_i hmore
      rwa [List.getLast?_append_cons, List.getLast?_cons_of_ne_nil (hjoined hmore)]

/-- No two hyphens stand side by side. -/
theorem isChain_joined {words : List Text} (h : AreWords words) :
    (joined words).IsChain fun a b => ¬ (a = '-' ∧ b = '-') := by
  induction words with
  | nil => exact .nil
  | cons word words ih =>
    obtain ⟨⟨-, hword⟩, hwords⟩ := List.forall_mem_cons.mp h
    have hletters : ∀ c ∈ word, c ≠ '-' := by
      rintro c hc rfl
      exact not_isAlphanum_hyphen (hword '-' hc)
    have hfirst : word.IsChain fun a b => ¬ (a = '-' ∧ b = '-') :=
      List.Pairwise.isChain (List.pairwise_of_forall_mem_list fun a ha b _ hab => hletters a ha hab.1)
    rw [joined_cons]
    split
    · rwa [List.append_nil]
    · have hrest : ('-' :: joined words).IsChain fun a b => ¬ (a = '-' ∧ b = '-') := by
        refine List.isChain_cons.mpr ⟨?_, ih hwords⟩
        rintro c hc ⟨-, rfl⟩
        exact head?_joined hwords hc
      refine List.isChain_append.mpr ⟨hfirst, hrest, ?_⟩
      rintro a ha b - ⟨rfl, -⟩
      exact hletters '-' (List.mem_of_getLast? ha) rfl

end Text

namespace Heading

open Text

variable {s rest run gap : Text}

/-- The gap in front of the first run does not show. -/
theorem slugFrom_false (gap : Bool) (s : Text) : slugFrom false gap s = slugFrom false true s := by
  cases s with
  | nil => rfl
  | cons c s => simp [slugFrom]

theorem slugFrom_gap (started : Bool) (hgap : ∀ c ∈ gap, ¬ c.isAlphanum) (rest : Text) :
    slugFrom started true (gap ++ rest) = slugFrom started true rest := by
  induction gap with
  | nil => rfl
  | cons c gap ih =>
    obtain ⟨hc, hgap⟩ := List.forall_mem_cons.mp hgap
    rw [List.cons_append, slugFrom, if_neg hc, ih hgap]

theorem slugFrom_run (hrun : ∀ c ∈ run, c.isAlphanum) (rest : Text) :
    slugFrom true false (run ++ rest) = small run ++ slugFrom true false rest := by
  induction run with
  | nil => rfl
  | cons c run ih =>
    obtain ⟨hc, hrun⟩ := List.forall_mem_cons.mp hrun
    rw [List.cons_append, slugFrom, if_pos hc, ih hrun]
    rfl

/-- Behind a run a gap is open as soon as there is anything else. -/
theorem slugFrom_end (hend : ¬ rest.head?.any Char.isAlphanum) :
    slugFrom true false rest = slugFrom true true rest := by
  cases rest with
  | nil => rfl
  | cons c rest =>
    have hc : ¬ c.isAlphanum := by simpa using hend
    rw [slugFrom, if_neg hc, slugFrom, if_neg hc]

/-- From any place on, the runs that follow are written with one hyphen between them, and one in front
if something is written already. -/
theorem slugFrom_eq (started : Bool) (s : Text) : slugFrom started true s =
    if started ∧ s.runs ≠ [] then '-' :: joined (s.runs.map small) else joined (s.runs.map small) := by
  have hruns := hasRuns_runs s
  generalize s.runs = runs at hruns
  induction hruns generalizing started with
  | @none gap hgap =>
    rw [← List.append_nil gap, slugFrom_gap started hgap]
    simp [slugFrom, joined]
  | @run gap run rest runs hgap hne hrun hend _ ih =>
    obtain ⟨c, run, rfl⟩ := List.exists_cons_of_ne_nil hne
    obtain ⟨hc, hrun⟩ := List.forall_mem_cons.mp hrun
    have hwritten : c.toLower :: slugFrom true false (run ++ rest) =
        joined (((c :: run) :: runs).map small) := by
      rw [slugFrom_run hrun, slugFrom_end hend, ih true, List.map_cons, joined_cons]
      cases runs <;> simp [small, joined]
    rw [List.append_assoc, slugFrom_gap started hgap, List.cons_append, slugFrom, if_pos hc, hwritten]
    cases started <;> simp

theorem anchor_eq (title : Text) : anchor title = '#' :: joined (title.runs.map small) := by
  rw [anchor, slugFrom_false, slugFrom_eq, if_neg (by simp)]

end Heading

namespace Text

variable {s rest run gap : Text}

@[simp] theorem small_append (s t : Text) : small (s ++ t) = small s ++ small t :=
  List.map_append

theorem small_joined (words : List Text) : small (joined words) = joined (words.map small) := by
  induction words with
  | nil => rfl
  | cons word words ih =>
    rw [joined_cons, List.map_cons, joined_cons, small_append]
    split
    · rename_i hnil
      simp [hnil, small]
    · rename_i hmore
      rw [if_neg (by simpa using hmore), ← ih]
      rfl

/-- A capital letter becomes a small one; no other character changes. -/
theorem toLower_eq_or (c : Char) :
    c.toLower = c ∨ (97 ≤ c.toLower.toNat ∧ c.toLower.toNat ≤ 122) := by
  unfold Char.toLower
  split
  · rename_i h
    have hlow : 65 ≤ c.toNat := UInt32.le_iff_toNat_le.mp h.1
    have hhigh : c.toNat ≤ 90 := UInt32.le_iff_toNat_le.mp h.2
    have hsum : (c.val + 32).toNat = (c.toNat + 32) % 4294967296 := UInt32.toNat_add _ _
    right
    change 97 ≤ (c.val + 32).toNat ∧ (c.val + 32).toNat ≤ 122
    omega
  · exact .inl rfl

theorem toLower_of_le {c : Char} (h : 97 ≤ c.toNat) : c.toLower = c := by
  unfold Char.toLower
  refine dif_neg fun hupper => ?_
  have hhigh : c.toNat ≤ 90 := UInt32.le_iff_toNat_le.mp hupper.2
  omega

theorem small_small (s : Text) : small (small s) = small s := by
  rw [small, small, List.map_map]
  refine List.map_congr_left fun c _ => ?_
  rcases toLower_eq_or c with h | ⟨h, -⟩
  · rw [Function.comp_apply, h, h]
  · exact toLower_of_le h

theorem isAlphanum_toLower {c : Char} (h : c.isAlphanum) : c.toLower.isAlphanum := by
  rcases toLower_eq_or c with hsame | ⟨hlow, hhigh⟩
  · rwa [hsame]
  · have hsmall : c.toLower.isLower := Bool.and_eq_true_iff.mpr
      ⟨decide_eq_true (UInt32.le_iff_toNat_le.mpr hlow),
        decide_eq_true (UInt32.le_iff_toNat_le.mpr hhigh)⟩
    have hletter : c.toLower.isAlpha := Bool.or_eq_true_iff.mpr (.inr hsmall)
    exact Bool.or_eq_true_iff.mpr (.inl hletter)

/-- The runs in small letters are words as well. -/
theorem areWords_small_runs (s : Text) : AreWords (s.runs.map small) := by
  intro word hword
  obtain ⟨run, hrun, rfl⟩ := List.mem_map.mp hword
  obtain ⟨hne, hletters⟩ := areWords_runs s run hrun
  refine ⟨by simpa [small] using hne, ?_⟩
  intro c hc
  obtain ⟨d, hd, rfl⟩ := List.mem_map.mp hc
  exact isAlphanum_toLower (hletters d hd)

theorem hyphened_run (hrun : ∀ c ∈ run, c.isAlphanum) (rest : Text) :
    hyphened (run ++ rest) = run ++ hyphened rest := by
  induction run with
  | nil => rfl
  | cons c run ih =>
    obtain ⟨hc, hrun⟩ := List.forall_mem_cons.mp hrun
    rw [List.cons_append, hyphened, if_pos hc, ih hrun, List.cons_append]

/-- A gap becomes one hyphen. -/
theorem hyphened_gap (hgap : ∀ c ∈ gap, ¬ c.isAlphanum) (hnext : rest.head?.all Char.isAlphanum) :
    hyphened (gap ++ rest) = (if gap = [] then [] else ['-']) ++ hyphened rest := by
  induction gap with
  | nil => rfl
  | cons c gap ih =>
    obtain ⟨hc, hgap⟩ := List.forall_mem_cons.mp hgap
    rw [List.cons_append, hyphened, if_neg hc, ih hgap, if_neg (List.cons_ne_nil c gap)]
    cases gap with
    | nil => simp [hnext]
    | cons d gap =>
      have hd : ¬ d.isAlphanum := hgap d (by simp)
      simp [hd]

/-- The gap behind a run becomes the hyphen in front of the next one, or one at the end. -/
theorem exists_back (run : Text) {runs : List Text} (hend : ¬ rest.head?.any Char.isAlphanum)
    (hruns : HasRuns rest runs) {front back : Text} (hrest : hyphened rest = front ++ joined runs ++ back)
    (hfront : front = if rest.head?.all Char.isAlphanum then [] else ['-'])
    (hback : back = [] ∨ back = ['-']) (hnone : runs = [] → back = []) :
    ∃ back, run ++ hyphened rest = joined (run :: runs) ++ back ∧ (back = [] ∨ back = ['-']) := by
  cases rest with
  | nil =>
    obtain rfl : runs = [] := hasRuns_iff.mp hruns
    exact ⟨[], by simp [hyphened, joined], Or.inl rfl⟩
  | cons c rest =>
    have hc : ¬ c.isAlphanum := by simpa using hend
    obtain rfl : front = ['-'] := by simpa [hc] using hfront
    rw [hrest, joined_cons]
    by_cases hmore : runs = []
    · refine ⟨['-'], ?_, Or.inr rfl⟩
      simp [hmore, hnone hmore, joined]
    · exact ⟨back, by simp [hmore], hback⟩

/-- After the first pass the runs stand between hyphens, and there may be one at either end. -/
theorem hyphened_eq (s : Text) : ∃ front back,
    hyphened s = front ++ joined s.runs ++ back ∧
      (front = if s.head?.all Char.isAlphanum then [] else ['-']) ∧
      (back = [] ∨ back = ['-']) ∧ (s.runs = [] → back = []) := by
  have hruns := hasRuns_runs s
  generalize s.runs = runs at hruns
  induction hruns with
  | @none gap hgap =>
    refine ⟨_, [], ?_, rfl, Or.inl rfl, fun _ => rfl⟩
    have hhyphened : hyphened (gap ++ []) = _ := hyphened_gap hgap rfl
    rw [List.append_nil] at hhyphened
    rw [hhyphened]
    cases gap with
    | nil => rfl
    | cons c gap =>
      have hc : ¬ c.isAlphanum := hgap c (by simp)
      simp [hc, hyphened, joined]
  | @run gap run rest runs hgap hne hrun hend h ih =>
    obtain ⟨front, back, hrest, hfront, hback, hnone⟩ := ih
    obtain ⟨back, hback, hedge⟩ := exists_back run hend h hrest hfront hback hnone
    obtain ⟨c, run, rfl⟩ := List.exists_cons_of_ne_nil hne
    have hc : c.isAlphanum := hrun c (by simp)
    refine ⟨_, back, ?_, rfl, hedge, by simp⟩
    rw [List.append_assoc, hyphened_gap hgap (by simpa using hc), hyphened_run hrun, hback,
      List.append_assoc]
    cases gap with
    | nil => simp [hc]
    | cons d gap =>
      have hd : ¬ d.isAlphanum := hgap d (by simp)
      simp [hd]

theorem unedged_eq {front body back : Text} (hfront : front = [] ∨ front = ['-'])
    (hback : back = [] ∨ back = ['-']) (hnone : body = [] → back = [])
    (hhead : body.head? ≠ some '-') (hlast : body.getLast? ≠ some '-') :
    unedged (front ++ body ++ back) = body := by
  have hbehind : (if (body ++ back).getLast? = some '-' then (body ++ back).dropLast
      else body ++ back) = body := by
    rcases hback with rfl | rfl
    · rw [List.append_nil, if_neg hlast]
    · rw [List.getLast?_concat, if_pos rfl, List.dropLast_concat]
  rcases hfront with rfl | rfl
  · have hstart : (body ++ back).head? ≠ some '-' := by
      cases body with
      | nil => simp [hnone rfl]
      | cons c body => exact hhead
    rw [List.nil_append, unedged, if_neg hstart, hbehind]
  · exact hbehind

/-- The three passes leave the runs with one hyphen between two of them. -/
theorem unedged_hyphened (s : Text) : unedged (small (hyphened s)) = joined (s.runs.map small) := by
  obtain ⟨front, back, hhyphened, hfront, hback, hnone⟩ := hyphened_eq s
  have hwords := areWords_small_runs s
  have hfront : small front = [] ∨ small front = ['-'] := by
    rw [hfront]
    split
    · exact Or.inl rfl
    · exact Or.inr rfl
  have hback : small back = [] ∨ small back = ['-'] := by
    rcases hback with rfl | rfl
    · exact Or.inl rfl
    · exact Or.inr rfl
  rw [hhyphened, small_append, small_append, small_joined]
  refine unedged_eq hfront hback ?_ (head?_joined hwords) (getLast?_joined hwords).1
  intro hempty
  have hruns : s.runs.map small = [] := by
    by_contra hmore
    exact (getLast?_joined hwords).2 hmore hempty
  rw [hnone (List.map_eq_nil_iff.mp hruns)]
  rfl

end Text

namespace Heading

open Text

/-- The anchor of a title is a number sign and its longest runs of letters and digits in small letters,
with one hyphen between two of them. It is what three passes make of the title. Behind the sign there is
no hyphen at either end and no two of them side by side, and what is there has the same anchor as the
title. Titles have the same anchor exactly if they have the same runs, regardless of case. -/
theorem anchor_runs (title : Text) :
    (∀ runs, HasRuns title runs ↔ runs = title.runs) ∧
      (∃ slug, anchor title = '#' :: slug ∧
        slug = List.intercalate ['-'] (title.runs.map small) ∧
        slug = unedged (small (hyphened title)) ∧
        slug.head? ≠ some '-' ∧ slug.getLast? ≠ some '-' ∧ ¬ ['-', '-'] <:+: slug ∧
        anchor slug = anchor title) ∧
      ∀ other, anchor other = anchor title ↔ other.runs.map small = title.runs.map small := by
  have hwords := areWords_small_runs
  refine ⟨fun runs => hasRuns_iff, ⟨_, anchor_eq title, rfl, ?_, ?_, ?_, ?_, ?_⟩, ?_⟩
  · exact (unedged_hyphened title).symm
  · exact head?_joined (hwords title)
  · exact (getLast?_joined (hwords title)).1
  · intro hpair
    obtain ⟨front, back, hslug⟩ := hpair
    have hchain := isChain_joined (hwords title)
    rw [← hslug] at hchain
    have hpair := (List.isChain_append.mp (List.isChain_append.mp hchain).1).2.1
    exact (List.isChain_cons_cons.mp hpair).1 ⟨rfl, rfl⟩
  · have hsmall : small ∘ small = small := funext small_small
    rw [anchor_eq, anchor_eq, runs_joined (hwords title), List.map_map, hsmall]
  · intro other
    rw [anchor_eq, anchor_eq]
    constructor
    · intro heq
      have hruns := congrArg runs (List.cons.inj heq).2
      rwa [runs_joined (hwords other), runs_joined (hwords title)] at hruns
    · intro heq
      rw [heq]

/-- Separators at both ends, a letter that is no ASCII one, and a break. -/
example : anchor "  -- Café: 2.\nB ".toList = "#caf-2-b".toList := by decide

end Heading

end DocTree
