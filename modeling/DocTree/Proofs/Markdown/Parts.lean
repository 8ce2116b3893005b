import DocTree.Markdown.Content
import Mathlib.Data.List.Basic

/-!
# Content read part by part

What one step of reading content does: it takes a character up into the plain text that is pending,
or puts that text out and a part behind it. So no content reads as nothing, and plain text that
is pending comes first in what is read. Settling the emphasis and joining texts keep both.
-/
namespace DocTree.Markdown

namespace Content

/-- What a computation goes on with. -/
theorem run_bind {α β : Type} {x : Reading α} {memory after : Memory} {a : α}
    (h : x.run memory = (a, after)) (f : α → Reading β) :
    (x >>= f).run memory = (f a).run after := by
  rw [StateT.run_bind, h]
  rfl

/-- A search for the end of code that is in vain leaves the backticks. -/
theorem code_literal_ne_nil {scope : Scope} {place : Nat} {s literal : Text} {n : Nat}
    {memory after : Memory}
    (h : (code scope place ('`' :: s)).run memory = ((.literal literal, n), after)) :
    literal ≠ [] := by
  have hticks : ('`' :: s).takeWhile (· == '`') ≠ [] := by simp
  unfold code at h
  rw [run_bind (rfl : (get : Reading Memory).run memory = (memory, memory))] at h
  split at h
  · cases h
    exact hticks
  · dsimp only at h
    split at h
    · cases h
    · cases h
      exact hticks

theorem address?_ne_literal {s literal : Text} {n : Nat} :
    address? s ≠ some (.literal literal, n) := by
  unfold address?
  split
  · dsimp only
    split <;> simp
  · simp

theorem html?_ne_literal {scope : Scope} {place : Nat} {s literal : Text} {n : Nat} :
    html? scope place s ≠ some (.literal literal, n) := by
  unfold html?
  split <;> simp

theorem entity?_ne_literal {s literal : Text} {n : Nat} :
    entity? s ≠ some (.literal literal, n) := by
  simp [entity?]

/-- A token that is plain text is not empty. -/
theorem literal_ne_nil {scope : Scope} {measure : Measure} {place : Nat} {s literal : Text}
    {n : Nat} {memory after : Memory}
    (h : (token? scope measure place s).run memory = (some (.literal literal, n), after)) :
    literal ≠ [] := by
  unfold token? at h
  split at h
  · cases h
  · rename_i rest
    unfold escape? at h
    split at h <;> cases h
  · rename_i rest
    cases hcode : (code scope place ('`' :: rest)).run memory with
    | mk token after =>
      rw [run_bind hcode] at h
      cases h
      exact code_literal_ne_nil hcode
  · rename_i rest
    cases hlink : (link? scope measure place ('[' :: rest)).run memory with
    | mk link? after =>
      rw [run_bind hlink] at h
      cases link? <;> cases h
  · rename_i rest
    cases himage : (image? scope measure place ('!' :: '[' :: rest)).run memory with
    | mk image? after =>
      rw [run_bind himage] at h
      cases image? <;> cases h
  · rename_i rest
    have hread : (address? ('<' :: rest)).or (html? scope place ('<' :: rest)) =
        some (.literal literal, n) := congrArg Prod.fst h
    rcases Option.or_eq_some_iff.mp hread with hread | ⟨-, hread⟩
    · exact absurd hread address?_ne_literal
    · exact absurd hread html?_ne_literal
  · rename_i rest
    exact absurd (congrArg Prod.fst h) entity?_ne_literal
  · cases h

end Content

inductive Part.Solid : Part → Prop where
  | pieces (piece : Inline) (rest : List Inline) : Solid (.pieces (piece :: rest))
  | run {r : Run} (h : 0 < r.length) : Solid (.run r)

namespace Content

variable {scope : Scope} {depth : Nat} {inside : Enclosure → Nat → Text → Reading (List Inline)}

/-- What a step makes of pending text, held in reverse: it takes more text up, or puts the text out,
perhaps without the spaces at its end, and a part behind it. -/
inductive Step (pending : Text) : List Part → Text → Prop where
  | take {s : Text} (hs : s ≠ []) : Step pending [] (s ++ pending)
  | put {kept : Text} {part : Part} (hkept : kept = pending ∨ kept = pending.dropWhile (· == ' '))
      (hpart : part.Solid) : Step pending (withText kept [part]) []

theorem withText_cons (pending : Text) (part : Part) (rest : List Part) :
    withText pending (part :: rest) = withText pending [part] ++ rest := by
  unfold withText
  split <;> rfl

theorem withText_of_ne_nil {pending : Text} (h : pending ≠ []) (rest : List Part) :
    withText pending rest = .pieces [.text pending.reverse] :: rest := by
  rw [withText, if_neg (by simpa using h)]

theorem run_put (kept : Text) (part : Part) (x : Reading (List Part)) (memory : Memory) :
    ((do return withText kept (part :: (← x))).run memory).1 =
      withText kept [part] ++ (x.run memory).1 :=
  withText_cons kept part (x.run memory).1

/-- Where no token is passed over, content is read by a step and then the rest of it. -/
theorem parts_step (scope : Scope) (depth : Nat)
    (inside : Enclosure → Nat → Text → Reading (List Inline)) (before : Char) (place : Nat)
    (pending : Text) (c : Char) (rest : Text) (memory : Memory) :
    ∃ put kept hop after, Step pending put kept ∧
      ((parts scope depth inside before 0 place pending (c :: rest)).run memory).1 =
        put ++ ((parts scope depth inside c hop (place + 1) kept rest).run after).1 := by
  rw [parts]
  dsimp only
  split
  · exact ⟨_, _, _, _, .put (.inl rfl) (.run (Nat.succ_pos _)), run_put ..⟩
  · cases htoken : (token? scope (measure scope depth) place (c :: rest)).run memory with
    | mk token after =>
    rw [run_bind htoken]
    rcases token with - | ⟨token, n⟩
    · exact ⟨_, _, _, _, .take (s := [c]) (by simp), rfl⟩
    · cases token with
      | literal s => exact ⟨_, _, _, _, .take (by simpa using literal_ne_nil htoken), rfl⟩
      | piece p => exact ⟨_, _, _, _, .put (.inl rfl) (.pieces _ _), run_put ..⟩
      | newline => exact ⟨_, _, _, _, .put (.inr rfl) (.pieces _ _), run_put ..⟩
      | address shown => exact ⟨_, _, _, _, .put (.inl rfl) (.pieces _ _), run_put ..⟩
      | link content =>
        cases hinner : (inside .link (place + 1) content).run after with
        | mk inner later =>
          dsimp only
          rw [run_bind hinner]
          exact ⟨_, _, _, _, .put (.inl rfl) (.pieces _ _), run_put ..⟩
      | image content =>
        cases hinner : (inside .image (place + 2) content).run after with
        | mk inner later =>
          dsimp only
          rw [run_bind hinner]
          exact ⟨_, _, _, _, .put (.inl rfl) (.pieces _ _), run_put ..⟩

/-- Text is never read as nothing. A step either puts a part out or leaves text pending. -/
theorem parts_solid (before : Char) (hop place : Nat) (pending s : Text) (memory : Memory)
    (h : pending ≠ [] ∨ hop < s.length) :
    ∃ part ∈ ((parts scope depth inside before hop place pending s).run memory).1, part.Solid := by
  induction s generalizing before hop place pending memory with
  | nil =>
    have hparts : ((parts scope depth inside before hop place pending []).run memory).1 =
        withText pending [] := rfl
    rw [hparts, withText_of_ne_nil (h.resolve_right (Nat.not_lt_zero _))]
    exact ⟨_, List.mem_singleton_self _, .pieces _ _⟩
  | cons c rest ih =>
    cases hop with
    | succ hop => exact ih c hop (place + 1) pending memory (h.imp_right Nat.lt_of_succ_lt_succ)
    | zero =>
      obtain ⟨put, kept, hop, after, hstep, hparts⟩ :=
        parts_step scope depth inside before place pending c rest memory
      rw [hparts]
      cases hstep with
      | take hs => exact ih c hop (place + 1) _ after (.inl (by simp [hs]))
      | @put kept part _ hpart =>
        refine ⟨part, List.mem_append_left _ ?_, hpart⟩
        unfold withText
        split <;> simp

/-- Text held in reverse comes out with its last character first. -/
theorem withText_getLast {c : Char} {pending : Text} (h : pending.getLast? = some c)
    (rest : List Part) : ∃ text, withText pending rest = .pieces [.text (c :: text)] :: rest := by
  obtain ⟨text, rfl⟩ := List.getLast?_eq_some_iff.mp h
  exact ⟨text.reverse, by simp [withText_of_ne_nil]⟩

/-- Pending text comes first in what is read, if it begins with no space. -/
theorem parts_pending {c : Char} (hspace : c ≠ ' ') (before : Char) (hop place : Nat)
    (pending s : Text) (memory : Memory) (h : pending.getLast? = some c) :
    ∃ text rest, ((parts scope depth inside before hop place pending s).run memory).1 =
      .pieces [.text (c :: text)] :: rest := by
  induction s generalizing before hop place pending memory with
  | nil =>
    obtain ⟨text, htext⟩ := withText_getLast h []
    exact ⟨text, [], htext⟩
  | cons d rest ih =>
    cases hop with
    | succ hop => exact ih d hop (place + 1) pending memory h
    | zero =>
      obtain ⟨put, kept, hop, after, hstep, hparts⟩ :=
        parts_step scope depth inside before place pending d rest memory
      rw [hparts]
      cases hstep with
      | take => exact ih d hop (place + 1) _ after (by rw [List.getLast?_append, h]; rfl)
      | @put kept part hkept =>
        have hlast : kept.getLast? = some c := by
          rcases hkept with rfl | rfl
          · exact h
          · obtain ⟨text, rfl⟩ := List.getLast?_eq_some_iff.mp h
            rw [List.dropWhile_append]
            split <;> simp [hspace]
        obtain ⟨text, htext⟩ := withText_getLast hlast [part]
        rw [htext]
        exact ⟨text, _, rfl⟩

end Content

namespace Emphasis

def Pending.toPieces (p : Pending) : List Inline :=
  (p.before ++ p.openers.reverse.flatMap Opener.asText).flatMap Strand.toPieces

def Pending.Solid (p : Pending) : Prop :=
  p.openers ≠ [] ∨ p.before.flatMap Strand.toPieces ≠ []

def Pending.behind (front : List Strand) (p : Pending) : Pending :=
  { p with before := front ++ p.before }

variable {p : Pending} {front content : List Strand} {r : Run} {parts : List Part}

theorem Pending.push_behind : (p.behind front).push content = (p.push content).behind front := by
  unfold push behind
  cases p.openers <;> simp

theorem mark_behind (place : Nat) :
    mark r place (p.behind front) = (mark r place p).behind front := by
  unfold mark
  rw [show (p.behind front).openers = p.openers from rfl]
  split
  · rename_i content openers _
    exact Pending.push_behind (p := { p with openers })
  · split
    · rfl
    · exact Pending.push_behind

theorem marks_behind (place n : Nat) :
    marks r place n (p.behind front) = (marks r place n p).behind front := by
  induction n generalizing p with
  | zero => rfl
  | succ n ih => rw [marks, marks, mark_behind, ih]

theorem settleFrom_behind (place : Nat) :
    settleFrom place (p.behind front) parts = (settleFrom place p parts).behind front := by
  induction parts generalizing place p with
  | nil => rfl
  | cons part parts ih =>
    cases part with
    | pieces content => rw [settleFrom, settleFrom, Pending.push_behind, ih]
    | run r => rw [settleFrom, settleFrom, marks_behind, ih]

theorem Pending.toPieces_behind :
    (p.behind front).toPieces = front.flatMap Strand.toPieces ++ p.toPieces := by
  rw [toPieces, behind, List.append_assoc, List.flatMap_append]
  rfl

/-- Pieces that come first stay as they are. -/
theorem settle_pieces (content : List Inline) :
    settle (.pieces content :: parts) = content ++ settle parts := by
  have hfront : settle (.pieces content :: parts) =
      (settleFrom 0 (Pending.behind [.pieces content] ⟨[], []⟩) parts).toPieces := rfl
  rw [hfront, settleFrom_behind, Pending.toPieces_behind]
  simp [settle, Pending.toPieces, Strand.toPieces]

theorem Pending.Solid.toPieces_ne_nil (h : p.Solid) : p.toPieces ≠ [] := by
  rw [toPieces, List.flatMap_append]
  rcases h with h | h
  · obtain ⟨o, openers, ho⟩ := List.exists_cons_of_ne_nil (List.reverse_ne_nil_iff.mpr h)
    rw [ho]
    simp [Opener.asText, Strand.toPieces]
  · exact List.append_ne_nil_of_left_ne_nil h _

theorem Pending.Solid.push (h : p.Solid) (content : List Strand) : (p.push content).Solid := by
  unfold Pending.push
  split
  · rename_i hopeners
    refine .inr ?_
    rw [List.flatMap_append]
    exact List.append_ne_nil_of_left_ne_nil (h.resolve_left (not_not_intro hopeners)) _
  · exact .inl (List.cons_ne_nil _ _)

theorem Pending.solid_push (h : content.flatMap Strand.toPieces ≠ []) (p : Pending) :
    (p.push content).Solid := by
  unfold Pending.push
  split
  · refine .inr ?_
    rw [List.flatMap_append]
    exact List.append_ne_nil_of_right_ne_nil _ h
  · exact .inl (List.cons_ne_nil _ _)

theorem enclose_ne_nil (mark : Char) (content : List Strand) :
    (enclose mark content).flatMap Strand.toPieces ≠ [] := by
  unfold enclose
  split
  · split <;> simp [Strand.toPieces]
  · simp [Strand.toPieces]

theorem close?_ne_nil {place : Nat} {inner : List Strand} {openers rest : List Opener}
    (h : close? r place inner openers = some (content, rest)) :
    content.flatMap Strand.toPieces ≠ [] := by
  induction openers generalizing inner with
  | nil => cases h
  | cons o openers ih =>
    rw [close?] at h
    split at h
    · cases h
      exact enclose_ne_nil _ _
    · exact ih h

theorem mark_solid (r : Run) (place : Nat) (p : Pending) : (mark r place p).Solid := by
  unfold mark
  split
  · rename_i content openers hclose
    split at hclose
    · exact Pending.solid_push (close?_ne_nil hclose) _
    · cases hclose
  · split
    · exact .inl (List.cons_ne_nil _ _)
    · exact Pending.solid_push (by simp [Strand.toPieces]) p

theorem marks_solid (r : Run) (place : Nat) {n : Nat} (h : p.Solid ∨ 0 < n) :
    (marks r place n p).Solid := by
  induction n generalizing p with
  | zero => exact h.resolve_right (Nat.lt_irrefl 0)
  | succ n ih => exact ih (.inl (mark_solid r place p))

theorem settleFrom_solid (place : Nat) (h : p.Solid ∨ ∃ part ∈ parts, part.Solid) :
    (settleFrom place p parts).Solid := by
  induction parts generalizing place p with
  | nil => exact h.resolve_right (by simp)
  | cons part parts ih =>
    have h : (p.Solid ∨ part.Solid) ∨ ∃ part ∈ parts, part.Solid := by
      simpa only [List.exists_mem_cons_iff, or_assoc] using h
    cases part with
    | pieces content =>
      refine ih place (h.imp_left fun h => ?_)
      rcases h with h | h
      · exact h.push _
      · cases h
        exact Pending.solid_push (by simp [Strand.toPieces]) p
    | run r =>
      refine ih (place + 1) (h.imp_left fun h => marks_solid r place (h.imp_right fun h => ?_))
      cases h with
      | run h => exact h

theorem settle_ne_nil (h : ∃ part ∈ parts, part.Solid) : settle parts ≠ [] :=
  (settleFrom_solid 0 (.inr h)).toPieces_ne_nil

end Emphasis

namespace Inline

theorem joined_eq_nil_iff {images : Nat} {pieces : List Inline} :
    joined images pieces = [] ↔ pieces = [] := by
  constructor
  · intro h
    cases pieces with
    | nil => rfl
    | cons piece rest =>
      rw [joined] at h
      unfold cons at h
      split at h <;> cases h
  · rintro rfl
    rfl

/-- A text that comes first goes on in what it is joined with. -/
theorem joined_text (images : Nat) (c : Char) (s : Text) (rest : List Inline) :
    ∃ t more, joined images (.text (c :: s) :: rest) = .text (c :: t) :: more := by
  have hjoined : joined images (.text (c :: s) :: rest) =
      cons (.text (c :: s)) (joined images rest) := rfl
  rw [hjoined]
  cases joined images rest with
  | nil => exact ⟨s, [], rfl⟩
  | cons piece more =>
    cases piece with
    | text t => exact ⟨s ++ t, more, rfl⟩
    | _ => exact ⟨s, _, rfl⟩

end Inline

end DocTree.Markdown
