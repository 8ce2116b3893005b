import DocTree.FileSystem

/-!
# Places

What stands where after something is put into a tree. A file put in place of another is found
there; every other file stays what it is.
-/
namespace DocTree.Node

theorem lookup_cons_self (name : Text) (n : Node) (rest : List (Text × Node)) :
    ((name, n) :: rest).lookup name = some n := by
  simp

theorem lookup_cons_of_ne {name other : Text} (h : other ≠ name) (n : Node)
    (rest : List (Text × Node)) : ((name, n) :: rest).lookup other = rest.lookup other := by
  rw [List.lookup_cons, beq_eq_false_iff_ne.mpr h]

theorem lookup_putEntry (name other : Text) (new : Node) (entries : List (Text × Node)) :
    (putEntry name new entries).lookup other =
      if other = name then some new else entries.lookup other := by
  induction entries with
  | nil =>
    rw [putEntry]
    by_cases h : other = name
    · rw [if_pos h, h, lookup_cons_self]
    · rw [if_neg h, lookup_cons_of_ne h]
  | cons entry rest ih =>
    obtain ⟨key, n⟩ := entry
    rw [putEntry]
    by_cases hkey : key = name
    · rw [if_pos hkey]
      by_cases h : other = name
      · rw [if_pos h, h, lookup_cons_self]
      · have hne : other ≠ key := by rwa [hkey]
        rw [if_neg h, lookup_cons_of_ne h, lookup_cons_of_ne hne]
    · rw [if_neg hkey]
      by_cases h : other = key
      · rw [if_neg (by rwa [h]), h, lookup_cons_self, lookup_cons_self]
      · rw [lookup_cons_of_ne h, lookup_cons_of_ne h, ih]

section

variable {name : Text} {n : Node} {entries : List (Text × Node)}

/-- Putting what is there already changes nothing. -/
theorem putEntry_self (h : entries.lookup name = some n) : putEntry name n entries = entries := by
  induction entries with
  | nil => cases h
  | cons entry rest ih =>
    obtain ⟨key, old⟩ := entry
    rw [putEntry]
    by_cases hkey : key = name
    · subst hkey
      rw [lookup_cons_self] at h
      rw [if_pos rfl, Option.some.inj h]
    · rw [lookup_cons_of_ne (Ne.symm hkey)] at h
      rw [if_neg hkey, ih h]

/-- A name that is there is put in its old position. -/
theorem names_putEntry (h : entries.lookup name = some n) (new : Node) :
    (putEntry name new entries).map (·.1) = entries.map (·.1) := by
  induction entries with
  | nil => cases h
  | cons entry rest ih =>
    obtain ⟨key, old⟩ := entry
    rw [putEntry]
    by_cases hkey : key = name
    · simp [hkey]
    · rw [lookup_cons_of_ne (Ne.symm hkey)] at h
      simp [hkey, ih h]

end

theorem at?_cons (name : Text) (rest : List Text) (n : Node) :
    at? (name :: rest) n = (n.child? name).bind (at? rest) := rfl

theorem at?_append (place more : List Text) (n : Node) :
    at? (place ++ more) n = (at? place n).bind (at? more) := by
  induction place generalizing n with
  | nil => rfl
  | cons first place ih =>
    rw [List.cons_append, at?_cons, at?_cons]
    cases h : n.child? first with
    | none => rfl
    | some child => exact ih child

theorem at?_append_singleton (place : List Text) (name : Text) (n : Node) :
    at? (place ++ [name]) n = (at? place n).bind (child? name) := by
  have hone : at? [name] = child? name := by
    funext m
    rw [at?_cons]
    cases m.child? name <;> rfl
  rw [at?_append, hone]

/-- The first step to a place leads into a directory. -/
theorem exists_child_of_at? {name : Text} {rest : List Text} {root n : Node}
    (h : at? (name :: rest) root = some n) :
    ∃ entries child, root = directory entries ∧ entries.lookup name = some child ∧
      at? rest child = some n := by
  rw [at?_cons] at h
  obtain ⟨child, hchild, hrest⟩ := Option.bind_eq_some_iff.mp h
  cases root with
  | file bytes => cases hchild
  | link target => cases hchild
  | directory entries => exact ⟨entries, child, rfl, hchild, hrest⟩

theorem put_cons {name : Text} {rest : List Text} {entries : List (Text × Node)} {child : Node}
    (h : entries.lookup name = some child) (new : Node) :
    put new (name :: rest) (directory entries) =
      directory (putEntry name (put new rest child) entries) := by
  simp [put, h]

section

variable {place : List Text} {root n : Node}

/-- Putting back what stands at a place changes nothing. -/
theorem put_self (h : at? place root = some n) : put n place root = root := by
  induction place generalizing root with
  | nil =>
    cases h
    rfl
  | cons name rest ih =>
    obtain ⟨entries, child, rfl, hchild, hrest⟩ := exists_child_of_at? h
    rw [put_cons hchild, ih hrest, putEntry_self hchild]

/-- What is put at a place is found there. -/
theorem at?_put_self (h : at? place root = some n) (new : Node) :
    at? place (put new place root) = some new := by
  induction place generalizing root with
  | nil => rfl
  | cons name rest ih =>
    obtain ⟨entries, child, rfl, hchild, hrest⟩ := exists_child_of_at? h
    rw [put_cons hchild, at?_cons, child?, lookup_putEntry, if_pos rfl]
    exact ih hrest

/-- A file elsewhere stays what it is. -/
theorem at?_put_other {other : List Text} {old bytes : List UInt8}
    (h : at? place root = some (file old)) (ho : at? other root = some (file bytes))
    (hne : other ≠ place) (new : Node) :
    at? other (put new place root) = some (file bytes) := by
  induction place generalizing root other with
  | nil =>
    cases h
    cases other with
    | nil => exact absurd rfl hne
    | cons name rest => cases ho
  | cons name rest ih =>
    obtain ⟨entries, child, rfl, hchild, hrest⟩ := exists_child_of_at? h
    cases other with
    | nil => cases ho
    | cons name' rest' =>
      rw [put_cons hchild, at?_cons, child?, lookup_putEntry]
      by_cases hname : name' = name
      · subst hname
        rw [if_pos rfl]
        rw [at?_cons, child?, hchild] at ho
        exact ih hrest ho (fun heq => hne (by rw [heq]))
      · rw [if_neg hname]
        exact ho

end

end DocTree.Node
