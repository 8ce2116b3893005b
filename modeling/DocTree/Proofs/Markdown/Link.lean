import DocTree.Proofs.Markdown.Parts
import DocTree.Proofs.Markdown.Target

/-!
# Content that begins with a link

A label of ordinary characters in brackets, and a parenthesis behind it. If a target and a closing
parenthesis follow, that is a link and the rest of the content stands behind it; otherwise the
bracket is text.
-/
namespace DocTree.Markdown

namespace Content

/-- A character that is read as it stands, wherever in content. -/
structure IsOrdinary (c : Char) : Prop where
  noToken : beginsToken c = false
  noStar : c ≠ '*'
  noUnderscore : c ≠ '_'
  noClosing : c ≠ ']'

section

variable {scope : Scope} {depth place : Nat} {c : Char} {label s target : Text}
  {inside : Enclosure → Nat → Text → Reading (List Inline)} {memory after : Memory}

theorem IsOrdinary.noOpening (hc : IsOrdinary c) : c ≠ '[' := by
  rintro rfl
  cases hc.noToken

theorem token?_ordinary (hc : IsOrdinary c) (measure : Measure) (place : Nat) (s : Text) :
    token? scope measure place (c :: s) = pure none := by
  have h := hc.noToken
  unfold token?
  split
  · rename_i heq
    cases heq
    cases h
  all_goals first
    | rfl
    | rename_i heq
      cases heq
      cases h

theorem measure_ordinary (hc : IsOrdinary c) (depth place : Nat) (s : Text) :
    (measure scope (depth + 1) place (c :: s)).run {} = (1, {}) := by
  simp only [measure, List.head?_cons, Option.any_some, hc.noToken]
  rfl

/-- A bracket behind ordinary characters closes their label. -/
theorem labelLength_ordinary (h : ∀ c ∈ label, IsOrdinary c) (alone : Bool) (depth place : Nat)
    (s : Text) :
    (labelLength (measure scope (depth + 1)) alone 0 0 place (label ++ ']' :: s)).run {} =
      (some label.length, {}) := by
  induction label generalizing place with
  | nil => rfl
  | cons c label ih =>
    have hc := h c (by simp)
    have hclose : (c == ']') = false := by simpa using hc.noClosing
    have hopen : (c == '[') = false := by simpa using hc.noOpening
    rw [List.cons_append, labelLength]
    simp only [hclose, hopen, Bool.false_and, Bool.false_eq_true, if_false]
    rw [run_bind (measure_ordinary hc ..), run_bind (ih (fun x hx => h x (by simp [hx])) _)]
    rfl

theorem parts_take (hstar : c ≠ '*') (hline : c ≠ '_')
    (htoken : (token? scope (measure scope depth) place (c :: s)).run memory = (none, after))
    (before : Char) (pending : Text) :
    (parts scope depth inside before 0 place pending (c :: s)).run memory =
      (parts scope depth inside c 0 (place + 1) (c :: pending) s).run after := by
  rw [parts]
  dsimp only
  rw [if_neg (by simp [hstar, hline]), run_bind htoken]

/-- Ordinary characters are plain text. -/
theorem parts_ordinary (h : ∀ c ∈ label, IsOrdinary c) (before : Char) (place : Nat)
    (pending : Text) :
    (parts scope depth inside before 0 place pending label).run memory =
      (withText (label.reverse ++ pending) [], memory) := by
  induction label generalizing before place pending with
  | nil => rfl
  | cons c label ih =>
    have hc := h c (by simp)
    have htoken : (token? scope (measure scope depth) place (c :: label)).run memory =
        (none, memory) := by
      rw [token?_ordinary hc]
      rfl
    rw [parts_take hc.noStar hc.noUnderscore htoken, ih fun x hx => h x (by simp [hx])]
    simp

/-- The characters of a token are passed over. -/
theorem parts_idle {hop : Nat} (h : s.length ≤ hop) (before : Char) (place : Nat)
    (pending : Text) :
    (parts scope depth inside before hop place pending s).run memory =
      (withText pending [], memory) := by
  induction s generalizing before hop place with
  | nil => rfl
  | cons c s ih =>
    obtain ⟨hop, rfl⟩ : ∃ n, hop = n + 1 := Nat.exists_eq_succ_of_ne_zero (by
      rintro rfl
      cases h)
    exact ih (Nat.le_of_succ_le_succ h) c (place + 1)

/-- Content is read into parts, and links in it at a lower depth. -/
theorem readNested_eq (nesting depth : Nat) (scope : Scope) (before : Char) (place : Nat)
    (s : Text) : ∃ inside : Enclosure → Nat → Text → Reading (List Inline),
      (∀ place content, inside .link place content =
        readNested nesting (depth - 1) scope '[' place content) ∧
      readNested (nesting + 1) depth scope before place s =
        do return Emphasis.settle (← parts scope depth inside before 0 place [] s) :=
  ⟨_, fun _ _ => rfl, rfl⟩

theorem readNested_ordinary (h : ∀ c ∈ label, IsOrdinary c) (hne : label ≠ [])
    (nesting depth : Nat) (before : Char) (place : Nat) :
    (readNested (nesting + 1) depth scope before place label).run memory =
      ([.text label], memory) := by
  obtain ⟨inside, -, hread⟩ := readNested_eq nesting depth scope before place label
  rw [hread, run_bind (parts_ordinary h ..), List.append_nil,
    withText_of_ne_nil (by simpa using hne), List.reverse_reverse]
  rfl

def linked (label target : Text) : Text :=
  '[' :: label ++ ']' :: '(' :: target

theorem link?_linked (hlabels : scope.labels = []) (h : ∀ c ∈ label, IsOrdinary c)
    (depth place : Nat) (target : Text) :
    (link? scope (measure scope (depth + 1)) place (linked label target)).run {} =
      (match Target.read target with
        | .closed rest => some (label, (linked label target).length - rest.length)
        | _ => none, {}) := by
  have hbody : (linked label target).drop 1 = label ++ ']' :: '(' :: target := rfl
  have hlabel : (label ++ ']' :: '(' :: target).take label.length = label := List.take_left
  have hafter : (label ++ ']' :: '(' :: target).drop (label.length + 1) = '(' :: target := by
    rw [← List.drop_drop, List.drop_left]
    rfl
  rw [link?, hbody]
  dsimp only
  rw [run_bind (labelLength_ordinary h ..)]
  simp only [hlabel, hafter]
  cases Target.read target with
  | closed rest => rfl
  | missing => rfl
  | other rest =>
    simp only [reference?, hlabels, List.isEmpty_nil, if_true]
    rfl

theorem token?_linked (hlabels : scope.labels = []) (h : ∀ c ∈ label, IsOrdinary c)
    (depth place : Nat) (target : Text) :
    (token? scope (measure scope (depth + 1)) place (linked label target)).run {} =
      (match Target.read target with
        | .closed rest => some (.link label, (linked label target).length - rest.length)
        | _ => none, {}) := by
  have htoken : token? scope (measure scope (depth + 1)) place (linked label target) =
      link? scope (measure scope (depth + 1)) place (linked label target) >>= fun link? =>
        return link?.map fun found => (.link found.1, found.2) := rfl
  rw [htoken, run_bind (link?_linked hlabels h ..)]
  cases Target.read target <;> rfl

theorem parts_unlinked (hlabels : scope.labels = []) (h : ∀ c ∈ label, IsOrdinary c)
    (htarget : ∀ rest, Target.read target ≠ .closed rest) (depth : Nat)
    (inside : Enclosure → Nat → Text → Reading (List Inline)) (before : Char) (place : Nat) :
    ∃ text rest, ((parts scope (depth + 1) inside before 0 place [] (linked label target)).run
      {}).1 = .pieces [.text ('[' :: text)] :: rest := by
  have htoken : (token? scope (measure scope (depth + 1)) place (linked label target)).run {} =
      (none, {}) := by
    rw [token?_linked hlabels h]
    split
    · rename_i rest hclosed
      exact absurd hclosed (htarget rest)
    · rfl
  rw [linked, List.cons_append] at htoken ⊢
  rw [parts_take (by decide) (by decide) htoken]
  exact parts_pending (by decide) _ _ _ _ _ _ rfl

theorem parts_linked (hlabels : scope.labels = []) (h : ∀ c ∈ label, IsOrdinary c) {rest : Text}
    (htarget : Target.read target = .closed rest) {inner : List Inline} {place : Nat}
    (hinner : (inside .link (place + 1) label).run {} = (inner, after)) (depth : Nat)
    (before : Char) :
    ((parts scope (depth + 1) inside before 0 place [] (linked label target)).run {}).1 =
      .pieces (enclosed .link inner) :: ((parts scope (depth + 1) inside '['
        ((linked label target).length - rest.length - 1) (place + 1) []
        ((linked label target).drop 1)).run after).1 := by
  have htoken := token?_linked hlabels h depth place target
  rw [htarget] at htoken
  have hmark : ('[' == '*' || '[' == '_') = false := rfl
  rw [linked, List.cons_append] at htoken ⊢
  rw [parts]
  simp only [hmark, Bool.false_eq_true, if_false]
  rw [run_bind htoken]
  dsimp only
  rw [run_bind hinner]
  rfl

end

section

variable {label target : Text}

def Scope.unlabelled (source : Text) : Scope :=
  { labels := [], source }

theorem labels_unlabelled (source : Text) : (Scope.unlabelled source).labels = [] := rfl

theorem read_eq (source : Text) : ∃ inside : Enclosure → Nat → Text → Reading (List Inline),
    (∀ place content, inside .link place content =
      readNested source.length (maxDepth - 1) (.unlabelled source) '[' place content) ∧
    read [] source = Inline.joined 0 (Emphasis.settle
      ((parts (.unlabelled source) maxDepth inside ' ' 0 0 [] source).run {}).1) := by
  obtain ⟨inside, hinside, hread⟩ :=
    readNested_eq source.length maxDepth (.unlabelled source) ' ' 0 source
  refine ⟨inside, hinside, ?_⟩
  rw [read]
  change Inline.joined 0 ((readNested (source.length + 1) maxDepth (.unlabelled source) ' ' 0
    source).run {}).1 = _
  rw [hread]
  rfl

theorem maxDepth_eq : maxDepth - 1 + 1 = maxDepth := rfl

/-- Without a target the opening bracket is text. -/
theorem read_unlinked (h : ∀ c ∈ label, IsOrdinary c)
    (htarget : ∀ rest, Target.read target ≠ .closed rest) :
    ∃ text more, read [] (linked label target) = .text ('[' :: text) :: more := by
  obtain ⟨inside, -, hread⟩ := read_eq (linked label target)
  obtain ⟨text, rest, hparts⟩ := parts_unlinked (labels_unlabelled (linked label target)) h
    htarget (maxDepth - 1) inside ' ' 0
  rw [maxDepth_eq] at hparts
  rw [hread, hparts, Emphasis.settle_pieces]
  exact Inline.joined_text 0 '[' text _

/-- Behind a target stands the rest of the content. -/
theorem read_linked (h : ∀ c ∈ label, IsOrdinary c) (hne : label ≠ []) {rest : Text}
    (htarget : Target.read target = .closed rest) :
    ∃ more, read [] (linked label target) = enclosed .link [.text label] ++ more ∧
      (more = [] ↔ rest = []) := by
  obtain ⟨inside, hinside, hread⟩ := read_eq (linked label target)
  have hinner : (inside .link (0 + 1) label).run {} = ([.text label], {}) := by
    rw [hinside]
    exact readNested_ordinary h hne _ _ _ _
  have hparts := parts_linked (labels_unlabelled (linked label target)) h htarget hinner
    (maxDepth - 1) ' '
  rw [maxDepth_eq] at hparts
  rw [hread, hparts, Emphasis.settle_pieces]
  refine ⟨_, rfl, ?_⟩
  rw [Inline.joined_eq_nil_iff]
  have hlength : rest.length < (linked label target).length := by
    obtain ⟨front, -, rfl⟩ := Target.read_eq_closed_iff.mp htarget
    simp only [linked, List.length_append, List.length_cons]
    omega
  constructor
  · intro hnil
    by_contra hrest
    refine Emphasis.settle_ne_nil (parts_solid _ _ _ _ _ _ (.inr ?_)) hnil
    have := List.length_pos_of_ne_nil hrest
    rw [List.length_drop]
    omega
  · rintro rfl
    rw [parts_idle (by simp)]
    rfl

end

end Content

end DocTree.Markdown
