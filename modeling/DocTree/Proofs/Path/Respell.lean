import DocTree.Proofs.Path.Absolute

/-!
# Directories under two names

A path that leads down from a directory is spelled as the directory is, and then on. How it goes on
decides its last component, whether it has the ending of Markdown files and how it is reached from
another path down from there; the name of the directory decides none of it.
-/
namespace DocTree

namespace Path

/-- A path that leads down from wherever it starts: it is relative and never turns back. -/
structure Descends (r : Text) : Prop where
  relative : ¬ isAbsolute r
  ne_up : up ∉ steps r

instance (r : Text) : Decidable (Descends r) :=
  decidable_of_iff (¬ isAbsolute r ∧ up ∉ steps r) ⟨fun ⟨h, h'⟩ => ⟨h, h'⟩, fun ⟨h, h'⟩ => ⟨h, h'⟩⟩

variable {p q r t : Text} {cwd : List Text}

theorem not_isAbsolute_nil : ¬ isAbsolute [] := by
  simp [isAbsolute]

/-- The first slash behind a path is put there once. -/
theorem join_relative (p : Text) (hr : ¬ isAbsolute r) : join p r = join p [] ++ r := by
  rw [join, join, if_neg hr, if_neg not_isAbsolute_nil]
  split <;> simp

theorem getLast?_join_nil (hp : p ≠ []) : (join p []).getLast? = some '/' := by
  obtain ⟨front, hfront, -⟩ := exists_join hp not_isAbsolute_nil
  simp [hfront]

theorem join_of_ending (hp : p.getLast? = some '/') (hr : ¬ isAbsolute r) : join p r = p ++ r := by
  rw [join, if_neg hr, if_pos (by simp [hp])]

theorem nil_join (r : Text) : join [] r = r := by
  rw [join]
  split <;> simp

theorem not_isAbsolute_join (hr : ¬ isAbsolute r) (ht : ¬ isAbsolute t) : ¬ isAbsolute (join r t) := by
  by_cases hnil : r = []
  · rwa [hnil, nil_join]
  · rwa [isAbsolute_join hnil ht]

/-- A path is continued by steps one after another or by all of them at once. -/
theorem join_join (hp : p ≠ []) (hr : ¬ isAbsolute r) (ht : ¬ isAbsolute t) :
    join (join p r) t = join p (join r t) := by
  rw [join_relative p (not_isAbsolute_join hr ht), join_relative p hr]
  by_cases hnil : r = []
  · rw [hnil, nil_join, List.append_nil, join_of_ending (getLast?_join_nil hp) ht]
  · generalize join p [] = front
    rw [join, join, if_neg ht, if_neg ht, List.getLast?_append_of_ne_nil _ hnil]
    simp only [Bool.or_eq_true, List.isEmpty_iff, hnil, List.append_eq_nil_iff, and_false, false_or]
    split <;> simp

theorem Descends.join (hr : Descends r) (ht : Descends t) : Descends (join r t) where
  relative := not_isAbsolute_join hr.relative ht.relative
  ne_up := by
    rw [steps_join ht.relative]
    simp [hr.ne_up, ht.ne_up]

theorem IsName.descends {c : Text} (hc : IsName c) : Descends c where
  relative := not_isAbsolute_of_notMem hc.notMem_slash
  ne_up := by
    rw [steps_of_name hc.notMem_slash]
    split
    · simp
    · rw [List.mem_singleton]
      exact Ne.symm hc.ne_up

/-- The place of a path that leads down is below that of the directory. -/
theorem place_join_descends (hp : p ≠ []) (hr : Descends r) :
    place cwd (join p r) = place cwd p ++ steps r := by
  rw [place_join hp hr.relative]
  apply foldl_walk_names
  intro c hc
  have hne : c ≠ up := by
    rintro rfl
    exact hr.ne_up hc
  exact (isName_of_mem_steps hc).resolve_left hne

/-- The last component of a path stands behind a slash, if there is anything before it. -/
theorem exists_last (r : Text) :
    ∃ front name, '/' ∉ name ∧ (front = [] ∨ front.getLast? = some '/') ∧ r = front ++ name := by
  induction r with
  | nil => exact ⟨[], [], by simp, Or.inl rfl, rfl⟩
  | cons c r ih =>
    obtain ⟨front, name, hname, hfront, rfl⟩ := ih
    by_cases hnil : front = []
    · subst hnil
      by_cases hc : c = '/'
      · exact ⟨[c], name, hname, Or.inr (by simp [hc]), rfl⟩
      · exact ⟨[], c :: name, by simp [Ne.symm hc, hname], Or.inl rfl, rfl⟩
    · have hlast : front.getLast? = some '/' := hfront.resolve_left hnil
      exact ⟨c :: front, name, hname, Or.inr (by rw [List.getLast?_cons_of_ne_nil hnil, hlast]), rfl⟩

/-- A relative path is a last component behind another relative path. -/
theorem Descends.exists_join (hr : Descends r) :
    ∃ front name, Descends front ∧ '/' ∉ name ∧ r = Path.join front name := by
  obtain ⟨front, name, hname, hfront, rfl⟩ := exists_last r
  have hrelative := not_isAbsolute_of_notMem hname
  have hjoin : Path.join front name = front ++ name := by
    obtain rfl | hlast := hfront
    · exact nil_join name
    · exact join_of_ending hlast hrelative
  rw [← hjoin] at hr ⊢
  refine ⟨front, name, ⟨?_, ?_⟩, hname, rfl⟩
  · intro habsolute
    apply hr.relative
    have hne : front ≠ [] := by
      rintro rfl
      exact not_isAbsolute_nil habsolute
    rwa [isAbsolute_join hne hrelative]
  · intro hup
    apply hr.ne_up
    rw [steps_join hrelative]
    exact List.mem_append_left _ hup

/-- The directory of a file is as far below a directory under each name of that. -/
theorem Descends.exists_place_dirName (hr : Descends r) (cwd : List Text) :
    ∃ above, ∀ p, p ≠ [] → place cwd (dirName (Path.join p r)) = place cwd p ++ above := by
  obtain ⟨front, name, hfront, hname, rfl⟩ := hr.exists_join
  refine ⟨steps front, fun p hp => ?_⟩
  rw [← join_join hp hfront.relative (not_isAbsolute_of_notMem hname),
    place_dirName_join (join_ne_nil hp _) hname, place_join_descends hp hfront]

theorem baseName_join (hp : p ≠ []) (hr : ¬ isAbsolute r) : baseName (join p r) = baseName r := by
  obtain ⟨front, hjoin, -⟩ := Path.exists_join hp hr
  have hne : parts r ≠ [] := Text.splitOn_ne_nil '/' r
  rw [hjoin, baseName, baseName, parts, Text.splitOn_append, ← parts, ← parts]
  simp [List.getLastD_eq_getLast?, List.getLast?_append_of_ne_nil _ hne]

/-- What stands behind the last slash of a path is its last part. -/
theorem getLast?_parts {front name : Text} (hfront : front = [] ∨ front.getLast? = some '/')
    (hname : '/' ∉ name) : (parts (front ++ name)).getLast? = some name := by
  have hlast : parts name = [name] := Text.splitOn_of_notMem hname
  obtain rfl | hend := hfront
  · simp [hlast]
  · obtain ⟨before, rfl⟩ := List.getLast?_eq_some_iff.mp hend
    rw [List.append_assoc, List.singleton_append, parts, Text.splitOn_append, ← parts, ← parts, hlast]
    simp

theorem baseName_append {front name : Text} (hfront : front = [] ∨ front.getLast? = some '/')
    (hname : '/' ∉ name) : baseName (front ++ name) = name := by
  rw [baseName, List.getLastD_eq_getLast?, getLast?_parts hfront hname]
  rfl

theorem root_ending (p : Text) : root p = [] ∨ (root p).getLast? = some '/' := by
  unfold root
  split <;> simp

theorem exists_intercalate_concat (place : List Text) (name : Text) :
    ∃ front, (front = [] ∨ front.getLast? = some '/') ∧
      List.intercalate ['/'] (place ++ [name]) = front ++ name := by
  induction place with
  | nil => exact ⟨[], .inl rfl, by simp⟩
  | cons first rest ih =>
    obtain ⟨front, hfront, hjoin⟩ := ih
    obtain ⟨next, more, hmore⟩ := List.exists_cons_of_ne_nil (l := rest ++ [name]) (by simp)
    refine ⟨first ++ '/' :: front, .inr ?_, ?_⟩
    · obtain rfl | hend := hfront
      · simp
      · rw [List.getLast?_append_of_ne_nil _ (List.cons_ne_nil _ _), List.getLast?_cons, hend]
        rfl
    · rw [List.cons_append, hmore, List.intercalate_cons_cons, ← hmore, hjoin]
      simp

/-- The last component of a path stays in its normal form. -/
theorem baseName_normal_join (p : Text) {name : Text} (hname : IsName name) :
    baseName (normal (join p name)) = name := by
  have hsteps : steps name = [name] := by
    rw [steps_of_name hname.notMem_slash, if_neg (by simp [hname.ne_nil, hname.ne_here])]
  obtain ⟨front, hfront, hjoin⟩ :=
    exists_intercalate_concat ((steps p).foldl (walk (isAbsolute (join p name))) []) name
  have hroot : root (join p name) ++ front = [] ∨ (root (join p name) ++ front).getLast? = some '/' := by
    obtain rfl | hend := hfront
    · simpa using root_ending (join p name)
    · right
      rw [List.getLast?_append, hend]
      rfl
  rw [normal, steps_join (not_isAbsolute_of_notMem hname.notMem_slash), hsteps, List.foldl_append,
    List.foldl_cons, List.foldl_nil, walk_of_ne_up hname.ne_up, hjoin, ← List.append_assoc,
    if_neg (by simp [hname.ne_nil])]
  exact baseName_append hroot hname.notMem_slash

/-- The way from one place to another does not depend on what is above both. -/
theorem way_append (above start target : List Text) :
    way (above ++ start) (above ++ target) = way start target := by
  have hlength : (above ++ start).length - (above.length + common start target) =
      start.length - common start target := by
    rw [List.length_append]
    omega
  rw [way, way, common_append, hlength, List.drop_length_add_append]

/-- What is between two places decides how one is reached from the other. -/
theorem relative_congr {above above' down down' : List Text} {start start' target target' : Text}
    (hstart : place cwd start = above ++ down) (htarget : place cwd target = above ++ down')
    (hstart' : place cwd start' = above' ++ down) (htarget' : place cwd target' = above' ++ down') :
    relative cwd target' start' = relative cwd target start := by
  rw [relative, relative, hstart, htarget, hstart', htarget', way_append, way_append]

/-- Two paths that lead on in one way, down from two others. -/
def Alongside (p q a b : Text) : Prop :=
  ∃ r, Descends r ∧ a = join p r ∧ b = join q r

theorem Alongside.ne_nil {a b : Text} (h : Alongside p q a b) (hp : p ≠ []) (hq : q ≠ []) :
    a ≠ [] ∧ b ≠ [] := by
  obtain ⟨r, -, rfl, rfl⟩ := h
  exact ⟨join_ne_nil hp r, join_ne_nil hq r⟩

theorem Alongside.join {a b : Text} (h : Alongside p q a b) (hp : p ≠ []) (hq : q ≠ [])
    (ht : Descends t) : Alongside p q (Path.join a t) (Path.join b t) := by
  obtain ⟨r, hr, rfl, rfl⟩ := h
  exact ⟨Path.join r t, hr.join ht, join_join hp hr.relative ht.relative,
    join_join hq hr.relative ht.relative⟩

theorem Alongside.relative {a b a' b' : Text} (h : Alongside p q a b) (h' : Alongside p q a' b')
    (hp : p ≠ []) (hq : q ≠ []) : Path.relative cwd b' b = Path.relative cwd a' a := by
  obtain ⟨r, hr, rfl, rfl⟩ := h
  obtain ⟨t, ht, rfl, rfl⟩ := h'
  exact relative_congr (place_join_descends hp hr) (place_join_descends hp ht)
    (place_join_descends hq hr) (place_join_descends hq ht)

theorem Alongside.relative_dirName {a b a' b' : Text} (h : Alongside p q a b)
    (h' : Alongside p q a' b') (hp : p ≠ []) (hq : q ≠ []) :
    Path.relative cwd b' (dirName b) = Path.relative cwd a' (dirName a) := by
  obtain ⟨r, hr, rfl, rfl⟩ := h
  obtain ⟨t, ht, rfl, rfl⟩ := h'
  obtain ⟨down, hdown⟩ := hr.exists_place_dirName cwd
  exact relative_congr (hdown p hp) (place_join_descends hp ht) (hdown q hq) (place_join_descends hq ht)

end Path

/-- Whether a path has the ending of Markdown files is decided by how it leads on, if the ending
holds no slash but in front. -/
theorem Settings.isMarkdown_join_relative {s : Settings} (hslash : '/' ∉ s.extension.tail)
    {p r : Text} (hp : p ≠ []) (hr : ¬ Path.isAbsolute r) :
    s.isMarkdown (Path.join p r) = s.isMarkdown ('/' :: r) := by
  obtain ⟨front, hfront, -⟩ := Path.exists_join hp hr
  rw [isMarkdown, isMarkdown, Bool.eq_iff_iff, List.isSuffixOf_iff_suffix,
    List.isSuffixOf_iff_suffix, hfront]
  constructor
  · intro hsuffix
    rcases List.suffix_or_suffix_of_suffix hsuffix (List.suffix_append front ('/' :: r)) with
      hshort | ⟨before, hlong⟩
    · exact hshort
    · cases before with
      | nil => simp [← hlong]
      | cons c before =>
        rw [← hlong] at hslash
        exact absurd (by simp) hslash
  · intro hsuffix
    exact hsuffix.trans (List.suffix_append front _)

end DocTree
