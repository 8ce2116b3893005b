import DocTree.Proofs.FileSystem.Edit
import DocTree.Proofs.Sequence
import DocTree.Proofs.Text.Parts

/-!
# Where paths land without links

In a tree without symbolic links, and with names that are single components, a path lands where its
components say: each name leads one level down and `..` one level up. So the plain spelling of a
path lands where the path does, and a path continued by a name lands right below it.
-/
namespace DocTree

namespace Path

@[simp] theorem steps_nil : steps [] = [] := rfl

theorem steps_append (p q : Text) : steps (p ++ '/' :: q) = steps p ++ steps q := by
  simp [steps, parts, Text.splitOn_append]

theorem steps_of_ending {p : Text} (h : p.getLast? = some '/') (q : Text) :
    steps (p ++ q) = steps p ++ steps q := by
  obtain ⟨front, rfl⟩ := List.getLast?_eq_some_iff.mp h
  rw [List.append_assoc, List.singleton_append, steps_append, steps_append, steps_nil,
    List.append_nil]

/-- A path continued by a relative one takes the steps of both. -/
theorem steps_join {p q : Text} (hq : ¬ isAbsolute q) : steps (join p q) = steps p ++ steps q := by
  rw [join, if_neg hq]
  split
  · rename_i hp
    simp only [Bool.or_eq_true, List.isEmpty_iff, beq_iff_eq] at hp
    rcases hp with rfl | hp
    · rfl
    · exact steps_of_ending hp q
  · exact steps_append p q

theorem not_isAbsolute_of_notMem {c : Text} (h : '/' ∉ c) : ¬ isAbsolute c := by
  intro habsolute
  rw [isAbsolute, beq_iff_eq] at habsolute
  exact h (List.mem_of_head? habsolute)

theorem isAbsolute_append {p : Text} (hp : p ≠ []) (q : Text) :
    isAbsolute (p ++ q) = isAbsolute p := by
  cases p with
  | nil => exact absurd rfl hp
  | cons c p => rfl

/-- A path is continued behind a slash, which stands at its end or is put there. -/
theorem exists_join {p q : Text} (hp : p ≠ []) (hq : ¬ isAbsolute q) :
    ∃ front, join p q = front ++ '/' :: q ∧ (p = front ∨ p = front ++ ['/']) := by
  rw [join, if_neg hq]
  split
  · rename_i hend
    have hlast : p.getLast? = some '/' := by simpa [hp] using hend
    obtain ⟨front, rfl⟩ := List.getLast?_eq_some_iff.mp hlast
    exact ⟨front, by simp, Or.inr rfl⟩
  · exact ⟨p, rfl, Or.inl rfl⟩

theorem isAbsolute_join {p q : Text} (hp : p ≠ []) (hq : ¬ isAbsolute q) :
    isAbsolute (join p q) = isAbsolute p := by
  rw [join, if_neg hq]
  split <;> exact isAbsolute_append hp _

theorem join_ne_nil {p : Text} (hp : p ≠ []) (q : Text) : join p q ≠ [] := by
  unfold join
  split
  · rename_i hq
    rintro rfl
    cases hq
  · split <;> simp [hp]

/-- A component that names something is its own only step. -/
theorem steps_of_name {name : Text} (hslash : '/' ∉ name) :
    steps name = if name = [] ∨ name = ['.'] then [] else [name] := by
  rw [steps, parts, Text.splitOn_of_notMem hslash]
  split
  · rename_i h
    rcases h with rfl | rfl <;> rfl
  · rename_i h
    obtain ⟨hempty, hdot⟩ := not_or.mp h
    simp [hempty, hdot]

theorem steps_intercalate {names : List Text} (h : ∀ name ∈ names, '/' ∉ name) :
    steps (List.intercalate ['/'] names) = names.filter fun c => c != [] && c != ['.'] := by
  by_cases hne : names = []
  · rw [hne]
    rfl
  · rw [steps, parts, Text.splitOn_intercalate hne h]

theorem notMem_of_mem_steps {p c : Text} (h : c ∈ steps p) : '/' ∉ c :=
  Text.notMem_of_mem_splitOn (List.mem_filter.mp h).1

theorem steps_root_append (p q : Text) : steps (root p ++ q) = steps q := by
  have hslash : ∀ q, steps ('/' :: q) = steps q := fun q => steps_append [] q
  unfold root
  split <;> simp [hslash]

/-- The plain spelling of a path takes the same steps. -/
theorem steps_plain (p : Text) : steps (plain p) = steps p := by
  have hsteps : steps (List.intercalate ['/'] (steps p)) = steps p := by
    rw [steps_intercalate fun _ h => notMem_of_mem_steps h, steps, List.filter_filter]
    simp
  rw [plain]
  split
  · rename_i hempty
    obtain ⟨-, hnone⟩ := List.append_eq_nil_iff.mp hempty
    rw [← hsteps, hnone]
    rfl
  · rw [steps_root_append, hsteps]

theorem isAbsolute_intercalate {names : List Text} (h : ∀ name ∈ names, name ≠ [] ∧ '/' ∉ name) :
    ¬ isAbsolute (List.intercalate ['/'] names) := by
  cases names with
  | nil => simp [isAbsolute]
  | cons name rest =>
    obtain ⟨hne, hslash⟩ := h name (by simp)
    obtain ⟨c, tail, rfl⟩ := List.exists_cons_of_ne_nil hne
    have hc : c ≠ '/' := by
      rintro rfl
      exact hslash List.mem_cons_self
    cases rest <;> simp [isAbsolute, hc, List.intercalate_cons_cons]

theorem isAbsolute_plain (p : Text) : isAbsolute (plain p) = isAbsolute p := by
  have hrelative : ¬ isAbsolute (List.intercalate ['/'] (steps p)) := by
    refine isAbsolute_intercalate fun name hname => ⟨?_, notMem_of_mem_steps hname⟩
    have := (List.mem_filter.mp hname).2
    rintro rfl
    cases this
  cases p with
  | nil => rfl
  | cons c rest =>
    by_cases hc : c = '/'
    · subst hc
      have : ∃ more, root ('/' :: rest) = '/' :: more := by
        unfold root
        split <;> simp_all
      obtain ⟨more, hmore⟩ := this
      simp [plain, hmore, isAbsolute]
    · have hroot : root (c :: rest) = [] := by
        unfold root
        split <;> simp_all
      have hc' : isAbsolute (c :: rest) = false := by simp [isAbsolute, hc]
      rw [hc', plain, hroot, List.nil_append]
      split
      · rfl
      · simpa using hrelative

end Path

namespace Node

mutual

/-- No link stands at or below the node, and every name is one component of a path. -/
def isPlain : Node → Bool
  | file _ => true
  | link _ => false
  | directory entries => arePlain entries

def arePlain : List (Text × Node) → Bool
  | [] => true
  | (name, n) :: rest => !name.isEmpty && !name.contains '/' && n.isPlain && arePlain rest

end

variable {root : Node} {entries : List (Text × Node)}

theorem arePlain_iff : arePlain entries ↔
    ∀ e ∈ entries, e.1 ≠ [] ∧ '/' ∉ e.1 ∧ e.2.isPlain := by
  induction entries with
  | nil => simp [arePlain]
  | cons e rest ih =>
    obtain ⟨name, n⟩ := e
    simp [arePlain, ih, and_assoc]

theorem isPlain_of_lookup (h : arePlain entries) {name : Text} {n : Node}
    (hn : entries.lookup name = some n) : n.isPlain := by
  obtain ⟨before, after, rfl, -⟩ := List.lookup_eq_some_iff.mp hn
  exact (arePlain_iff.mp h (name, n) (by simp)).2.2

/-- What stands in a tree without links has none at or below it. -/
theorem isPlain_at? (h : root.isPlain) {place : List Text} {n : Node}
    (hn : at? place root = some n) : n.isPlain := by
  induction place generalizing root with
  | nil =>
    cases hn
    exact h
  | cons name rest ih =>
    obtain ⟨entries, child, rfl, hchild, hrest⟩ := exists_child_of_at? hn
    exact ih (isPlain_of_lookup h hchild) hrest

/-- What leads to a place is a directory. -/
theorem isDirectory_at?_dropLast {place : List Text} {n : Node} (hn : at? place root = some n)
    (hdir : n.isDirectory) : ∃ m, at? place.dropLast root = some m ∧ m.isDirectory := by
  rcases List.eq_nil_or_concat place with rfl | ⟨front, name, rfl⟩
  · exact ⟨n, hn, hdir⟩
  · rw [List.concat_eq_append] at hn ⊢
    rw [at?_append_singleton] at hn
    obtain ⟨m, hm, hchild⟩ := Option.bind_eq_some_iff.mp hn
    rw [List.dropLast_concat]
    cases m with
    | file bytes => cases hchild
    | link target => cases hchild
    | directory entries => exact ⟨_, hm, rfl⟩

end Node

namespace FileSystem

def descend (place : List Text) (step : Text) : List Text :=
  if step = ['.'] then place
  else if step = ['.', '.'] then place.dropLast
  else place ++ [step]

def landing (fs : FileSystem) (path : Text) : List Text :=
  (Path.steps path).foldl descend (if Path.isAbsolute path then [] else fs.workingDirectory)

section

variable {fs : FileSystem} {path : Text} {place : List Text}

/-- Without links steps lead where they say. -/
theorem walk_eq_foldl {root : Node} (h : root.isPlain)
    {follow : List Text → List Text → Except Cause (List Text)} {start steps : List Text}
    (hw : walk root follow start steps = .ok place) : place = steps.foldl descend start := by
  induction steps generalizing start with
  | nil => exact (Except.ok.inj hw).symm
  | cons s rest ih =>
    rw [walk] at hw
    cases hn : Node.at? start root with
    | none =>
      rw [hn] at hw
      cases hw
    | some n =>
      rw [hn] at hw
      cases n with
      | file bytes => cases hw
      | link target => cases hw
      | directory entries =>
        have hplain := Node.isPlain_at? h hn
        dsimp only at hw
        rw [List.foldl_cons, descend]
        split at hw
        · rename_i hdot
          rw [if_pos hdot]
          exact ih hw
        split at hw
        · rename_i hdot hup
          rw [if_neg hdot, if_pos hup]
          exact ih hw
        split at hw
        · cases hw
        · rename_i hdot hup _
          rw [if_neg hdot, if_neg hup]
          split at hw
          · split at hw
            · rename_i hlast
              rw [List.isEmpty_iff.mp hlast]
              exact (Except.ok.inj hw).symm
            · cases hw
          · rename_i target hlink
            cases Node.isPlain_of_lookup hplain hlink
          · exact ih hw

theorem foldl_descend_filter (start steps : List Text) :
    (steps.filter fun c => c != ['.']).foldl descend start = steps.foldl descend start := by
  rw [List.foldl_filter]
  congr 1
  funext place step
  by_cases hdot : step = ['.'] <;> simp [descend, hdot]

theorem steps_filter (path : Text) :
    (steps path).filter (fun c => c != ['.']) = Path.steps path := by
  have hend : (if path.getLast? = some '/' then [['.']] else []).filter
      (fun c : Text => c != ['.']) = [] := by
    split <;> rfl
  rw [steps, List.filter_append, hend, List.append_nil, List.filter_filter, Path.steps]
  refine List.filter_congr fun c _ => ?_
  cases c <;> simp

/-- Without links a path lands where its components say. -/
theorem eq_landing_of_resolve (h : fs.root.isPlain) (hr : fs.resolve path = .ok place) :
    place = fs.landing path := by
  rw [resolve] at hr
  split at hr
  · cases hr
  split at hr
  · cases hr
  split at hr
  · cases hr
  · dsimp only at hr
    split at hr
    · rename_i found hfound
      cases hr
      have hwalk : ∀ links start rest q, walkThrough fs.root links start rest = .ok q →
          q = rest.foldl descend start := by
        intro links start rest q hq
        cases links <;> exact walk_eq_foldl h hq
      rw [hwalk _ _ _ _ hfound, landing, ← steps_filter, foldl_descend_filter]
    · cases hr

@[simp] theorem landing_plain (fs : FileSystem) (path : Text) :
    fs.landing (Path.plain path) = fs.landing path := by
  rw [landing, landing, Path.steps_plain, Path.isAbsolute_plain]

/-- A path continued by one component lands one step further. -/
theorem landing_join {name : Text} (hpath : path ≠ []) (hslash : '/' ∉ name) :
    fs.landing (Path.join path name) =
      if name = [] then fs.landing path else descend (fs.landing path) name := by
  have hrelative := Path.not_isAbsolute_of_notMem hslash
  rw [landing, Path.steps_join hrelative, Path.isAbsolute_join hpath hrelative, List.foldl_append,
    ← landing, Path.steps_of_name hslash]
  by_cases hempty : name = []
  · simp [hempty]
  · by_cases hdot : name = ['.'] <;> simp [hempty, hdot, descend]

theorem exists_at?_of_readText {s : Text} (h : fs.root.isPlain)
    (hs : fs.readText path = .ok s) : ∃ bytes, Node.at? (fs.landing path) fs.root =
      some (.file bytes) := by
  obtain ⟨place, hholds⟩ := exists_holds hs
  have hplace := eq_landing_of_resolve h hholds.resolve
  rw [landing_plain] at hplace
  exact ⟨_, hplace ▸ hholds.at?⟩

theorem isDirectory_of_names {names : List Text} (h : fs.root.isPlain)
    (hn : fs.names path = .ok names) : path ≠ [] ∧ (∀ name ∈ names, name ≠ [] ∧ '/' ∉ name) ∧
      names.Nodup ∧ ∃ n, Node.at? (fs.landing path) fs.root = some n ∧ n.isDirectory := by
  obtain ⟨n, hfind, hn⟩ := bind_eq_ok.mp hn
  obtain ⟨place, hresolve, hat⟩ := find_eq_ok.mp hfind
  cases n with
  | file bytes => cases hn
  | link target => cases hn
  | directory entries =>
    cases hn
    refine ⟨?_, ?_, ?_, _, eq_landing_of_resolve h hresolve ▸ hat, rfl⟩
    · rintro rfl
      cases hresolve
    · intro name hname
      obtain ⟨e, he, rfl⟩ := List.mem_map.mp (List.mem_eraseDups.mp hname)
      have := Node.arePlain_iff.mp (Node.isPlain_at? h hat) e he
      exact ⟨this.1, this.2.1⟩
    · exact nodup_eraseDups _

end

end FileSystem

end DocTree
