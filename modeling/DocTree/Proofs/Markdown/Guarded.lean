import DocTree.Markdown.Destination

/-!
# Text up to a closing character

Labels, titles and destinations in brackets are read in one way: up to a character that closes
them, past characters that a backslash takes along, and no further than a character that they may
not hold.
-/
namespace DocTree.Markdown

/-- A text in which none of some characters stands, unless behind a backslash. -/
inductive Guarded (stops : Char → Prop) : Text → Prop where
  | nil : Guarded stops []
  | escape {s : Text} (c : Char) (h : Guarded stops s) : Guarded stops ('\\' :: c :: s)
  | plain {s : Text} {c : Char} (hc : c ≠ '\\') (hstop : ¬ stops c) (h : Guarded stops s) :
      Guarded stops (c :: s)

def readGuarded (close : Char) (refused : Char → Bool) : Text → Option (Text × Text)
  | [] => none
  | '\\' :: c :: rest =>
    (readGuarded close refused rest).map fun (s, after) => ('\\' :: c :: s, after)
  | c :: rest =>
    if c = close then some ([], rest)
    else if refused c then none
    else (readGuarded close refused rest).map fun (s, after) => (c :: s, after)

section

variable {close : Char} {refused : Char → Bool} {s inner after : Text}

/-- What a reader has read before it goes on stands in front of the rest. -/
theorem extended_eq_some {read : Option (Text × Text)} (extend : Text → Text)
    (h : (read.map fun (s, after) => (extend s, after)) = some (inner, after)) :
    ∃ t, read = some (t, after) ∧ inner = extend t := by
  obtain ⟨⟨t, more⟩, hread, heq⟩ := Option.map_eq_some_iff.mp h
  cases heq
  exact ⟨t, hread, rfl⟩

/-- A character in front of others that takes none of them along is no backslash. -/
theorem ne_escape {c : Char} (hafter : after ≠ [])
    (h : ∀ d rest, c = '\\' → s ++ after = d :: rest → False) : c ≠ '\\' := by
  intro hc
  cases hrest : s ++ after with
  | nil => exact hafter (List.append_eq_nil_iff.mp hrest).2
  | cons d rest => exact h d rest hc hrest

theorem readGuarded_complete (hclose : close ≠ '\\')
    (h : Guarded (fun c => c = close ∨ refused c) inner) (after : Text) :
    readGuarded close refused (inner ++ close :: after) = some (inner, after) := by
  induction h with
  | nil =>
    rw [List.nil_append, readGuarded, if_pos rfl]
    exact fun c rest hc => absurd hc hclose
  | escape c _ ih =>
    rw [List.cons_append, List.cons_append, readGuarded, ih]
    rfl
  | @plain s c hc hstop _ ih =>
    obtain ⟨hne, hallowed⟩ := not_or.mp hstop
    rw [List.cons_append, readGuarded, if_neg hne, if_neg hallowed, ih]
    · rfl
    · exact fun d rest hd => absurd hd hc

theorem readGuarded_sound (h : readGuarded close refused s = some (inner, after)) :
    Guarded (fun c => c = close ∨ refused c) inner ∧ s = inner ++ close :: after := by
  fun_induction readGuarded close refused s generalizing inner with
  | case1 => cases h
  | case2 c rest ih =>
    obtain ⟨t, hread, rfl⟩ := extended_eq_some ('\\' :: c :: ·) h
    obtain ⟨hguarded, rfl⟩ := ih hread
    exact ⟨hguarded.escape c, rfl⟩
  | case3 rest =>
    cases h
    exact ⟨.nil, rfl⟩
  | case4 => cases h
  | case5 c rest hescape hne hallowed ih =>
    obtain ⟨t, hread, rfl⟩ := extended_eq_some (c :: ·) h
    obtain ⟨hguarded, rfl⟩ := ih hread
    exact ⟨hguarded.plain (ne_escape (by simp) hescape) (not_or.mpr ⟨hne, hallowed⟩), rfl⟩

theorem readGuarded_eq_some_iff (hclose : close ≠ '\\') :
    readGuarded close refused s = some (inner, after) ↔
      Guarded (fun c => c = close ∨ refused c) inner ∧ s = inner ++ close :: after := by
  constructor
  · exact readGuarded_sound
  · rintro ⟨h, rfl⟩
    exact readGuarded_complete hclose h after

end

/-- A bracketed destination lies on one line and holds no brackets. -/
theorem Destination.bracketed?_eq (s : Text) :
    bracketed? s = readGuarded '>' (fun c => c = '\n' || c = '<') s := by
  fun_induction bracketed? s with
  | case1 => rfl
  | case2 c rest ih => rw [readGuarded, ih]
  | case3 c rest hc h =>
    have hclose : c ≠ '>' := by
      rintro rfl
      simp at h
    rw [readGuarded, if_neg hclose, if_pos h]
    exact hc
  | case4 rest hc h =>
    rw [readGuarded, if_pos rfl]
    exact hc
  | case5 c rest hc h hclose ih =>
    rw [readGuarded, if_neg hclose, if_neg h, ih]
    exact hc

theorem Title.closed?_eq (close : Char) (s : Text) :
    closed? close s = readGuarded close (fun c => c = '(' && close = ')') s := by
  fun_induction closed? close s with
  | case1 => rfl
  | case2 c rest ih => rw [readGuarded, ih]
  | case3 rest hc =>
    rw [readGuarded, if_pos rfl]
    exact hc
  | case4 c rest hc h hrefused =>
    rw [readGuarded, if_neg h, if_pos hrefused]
    exact hc
  | case5 c rest hc h hrefused ih =>
    rw [readGuarded, if_neg h, if_neg hrefused, ih]
    exact hc

theorem Label.closed?_eq (s : Text) : closed? s = readGuarded ']' (fun c => c = '[') s := by
  fun_induction closed? s with
  | case1 => rfl
  | case2 c rest ih => rw [readGuarded, ih]
  | case3 rest hc =>
    rw [readGuarded, if_neg (by decide), if_pos (by simp)]
    exact hc
  | case4 rest hc =>
    rw [readGuarded, if_pos rfl]
    exact hc
  | case5 c rest hc hopen hclose ih =>
    rw [readGuarded, if_neg hclose, if_neg (by simpa using hopen), ih]
    exact hc

end DocTree.Markdown
