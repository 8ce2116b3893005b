import DocTree.Proofs.Path.Respell
import DocTree.Proofs.Render.Cells

/-!
# Where a link leads

The way from one place to another leads there, whatever the two paths look like that name the
places. So the path of a link, followed from the directory of the document it stands in, leads to
its target. Only a link to that very directory has no way to go; it shows the directory's own
document instead.
-/
namespace DocTree

namespace Path

section

variable {start target : List Text}

theorem common_le_left (start target : List Text) : common start target ≤ start.length := by
  fun_induction common start target with
  | case1 s b t ih =>
    rw [List.length_cons]
    omega
  | case2 => omega
  | case3 => omega

theorem take_common (start target : List Text) :
    start.take (common start target) = target.take (common start target) := by
  fun_induction common start target with
  | case1 s b t ih => rw [List.take_succ_cons, List.take_succ_cons, ih]
  | case2 => rfl
  | case3 => rfl

theorem common_self (place : List Text) : common place place = place.length := by
  induction place with
  | nil => rfl
  | cons c place ih => rw [common, if_pos rfl, ih, List.length_cons]

/-- The way from one place to another leads there. -/
theorem foldl_walk_way (hstart : ∀ c ∈ start, IsName c) (htarget : ∀ c ∈ target, IsName c) :
    (way start target).foldl (walk true) start = target := by
  have hle := common_le_left start target
  have hup : start.length - (start.length - common start target) = common start target := by omega
  have hdown : ∀ c ∈ target.drop (common start target), IsName c :=
    fun c hc => htarget c (List.mem_of_mem_drop hc)
  rw [way, List.foldl_append, ← up, foldl_walk_up hstart, hup, foldl_walk_names hdown, take_common,
    List.take_append_drop]

/-- There is nowhere to go only from a place to itself. -/
theorem way_eq_nil_iff : way start target = [] ↔ start = target := by
  constructor
  · intro h
    obtain ⟨hup, hdown⟩ := List.append_eq_nil_iff.mp h
    have hstart : start.length ≤ common start target := by
      have := congrArg List.length hup
      simp only [List.length_replicate, List.length_nil] at this
      omega
    rw [← List.take_of_length_le hstart, take_common,
      List.take_of_length_le (List.drop_eq_nil_iff.mp hdown)]
  · rintro rfl
    simp [way, common_self]

/-- A way goes up first and then down by names. -/
theorem exists_way (start : List Text) (htarget : ∀ c ∈ target, IsName c) :
    ∃ n names, way start target = List.replicate n up ++ names ∧ ∀ c ∈ names, IsName c :=
  ⟨_, _, rfl, fun c hc => htarget c (List.mem_of_mem_drop hc)⟩

end

section

variable {cwd : List Text} {p q start target : Text}

/-- Followed from a path that may be empty, a relative path leads on from its place. -/
theorem place_join_relative (p : Text) (hq : ¬ isAbsolute q) :
    place cwd (join p q) = (steps q).foldl (walk true) (place cwd p) := by
  by_cases hp : p = []
  · rw [hp, nil_join, place, if_neg hq, place, if_neg not_isAbsolute_nil, steps_nil, List.foldl_nil]
  · exact place_join hp hq

/-- The components of a path that is made absolute and normal are those of its place. -/
theorem steps_absolute (hcwd : isAbsolute p ∨ ∀ c ∈ cwd, IsName c) :
    steps (absolute cwd p) = place cwd p := by
  have hplace := steps_intercalate_names (isName_place hcwd)
  rw [absolute_eq hcwd]
  split
  · rw [steps_root_append, hplace]
  · exact (steps_append [] _).trans hplace

/-- A path that leads up by some steps and then down by names. -/
structure IsWay (path : Text) : Prop where
  ne_nil : path ≠ []
  relative : ¬ isAbsolute path
  parts_eq : ∃ n names, parts path = List.replicate n up ++ names ∧ ∀ c ∈ names, IsName c

/-- The steps of a way make up a path with these parts. -/
theorem isWay_intercalate {n : Nat} {names : List Text} (hnames : ∀ c ∈ names, IsName c)
    (hne : List.replicate n up ++ names ≠ []) :
    IsWay (List.intercalate ['/'] (List.replicate n up ++ names)) ∧
      steps (List.intercalate ['/'] (List.replicate n up ++ names)) =
        List.replicate n up ++ names := by
  have hstep : ∀ c ∈ List.replicate n up ++ names, (c ≠ [] ∧ c ≠ ['.']) ∧ '/' ∉ c := by
    intro c hc
    rcases List.mem_append.mp hc with hc | hc
    · rw [(List.mem_replicate.mp hc).2]
      decide
    · exact ⟨⟨(hnames c hc).ne_nil, (hnames c hc).ne_here⟩, (hnames c hc).notMem_slash⟩
  have hparts : parts (List.intercalate ['/'] (List.replicate n up ++ names)) =
      List.replicate n up ++ names :=
    Text.splitOn_intercalate hne fun c hc => (hstep c hc).2
  refine ⟨⟨?_, isAbsolute_intercalate fun c hc => ⟨(hstep c hc).1.1, (hstep c hc).2⟩,
    n, names, hparts, hnames⟩, ?_⟩
  · intro hnil
    rw [hnil] at hparts
    exact (hstep [] (by rw [← hparts]; simp [parts, Text.splitOn])).1.1 rfl
  · rw [steps, hparts, List.filter_eq_self]
    intro c hc
    simpa using (hstep c hc).1

/-- The path of a target as seen from a directory leads from there to the target. From the target
itself there is nowhere to go. -/
theorem relative_leads (hcwd : ∀ c ∈ cwd, IsName c) (target start : Text) :
    if place cwd target = place cwd start then relative cwd target start = ['.']
    else relative cwd target start ≠ ['.'] ∧ IsWay (relative cwd target start) ∧
      place cwd (join start (relative cwd target start)) = place cwd target := by
  have hstart : ∀ c ∈ place cwd start, IsName c := isName_place (Or.inr hcwd)
  have htarget : ∀ c ∈ place cwd target, IsName c := isName_place (Or.inr hcwd)
  split
  · rename_i hsame
    rw [relative, way_eq_nil_iff.mpr hsame.symm]
  · rename_i hother
    have hne : way (place cwd start) (place cwd target) ≠ [] :=
      fun hnil => hother (way_eq_nil_iff.mp hnil).symm
    obtain ⟨n, names, hway, hnames⟩ := exists_way (place cwd start) htarget
    obtain ⟨hisWay, hsteps⟩ := isWay_intercalate hnames (hway ▸ hne)
    rw [← hway] at hisWay hsteps
    have hrelative : relative cwd target start =
        List.intercalate ['/'] (way (place cwd start) (place cwd target)) := by
      rw [relative]
      split
      · rename_i hnil
        exact absurd hnil hne
      · rfl
    rw [hrelative]
    refine ⟨?_, hisWay, ?_⟩
    · intro hhere
      rw [hhere] at hsteps
      exact hne hsteps.symm
    · rw [place_join_relative _ hisWay.relative, hsteps, foldl_walk_way hstart htarget]

end

end Path

namespace Render

variable {s : Settings} {filename : Text} {o : Entry}

/-- The path of a link in a Markdown document is that of its target as seen from the directory of
the document, if it leads anywhere else. -/
theorem target_markdown (hmarkdown : s.isMarkdown filename) (hne : o.filename ≠ []) :
    let path := Path.relative s.workingDirectory o.filename (Path.dirName filename)
    target s filename o = .ok (if path = ['.'] then s.rootDocument else path) := by
  rw [target, if_pos hmarkdown, if_neg (by simpa using hne)]

/-- A link in a Markdown document leads from the directory of the document to its target: made
absolute and normal, the two have the same components. The path leads up first and then down by
names, unless the target is that directory: then the link shows the directory's own document. -/
theorem entryLink_leads (hcwd : ∀ c ∈ s.workingDirectory, Path.IsName c)
    (hmarkdown : s.isMarkdown filename) (hne : o.filename ≠ []) :
    let components (p : Text) := Path.steps (Path.absolute s.workingDirectory p)
    ∃ path, entryLink s filename o = .ok (link o.title path) ∧
      if components o.filename = components (Path.dirName filename) then path = s.rootDocument
      else Path.IsWay path ∧
        components (Path.join (Path.dirName filename) path) = components o.filename := by
  intro components
  have hcomponents : ∀ p, components p = Path.place s.workingDirectory p :=
    fun p => Path.steps_absolute (Or.inr hcwd)
  have hleads := Path.relative_leads hcwd o.filename (Path.dirName filename)
  refine ⟨_, entryLink_eq_ok.mpr ⟨_, target_markdown hmarkdown hne, rfl⟩, ?_⟩
  simp only [hcomponents]
  split
  · rename_i hsame
    rw [if_pos hsame] at hleads
    rw [if_pos hleads]
  · rename_i hother
    rw [if_neg hother] at hleads
    rw [if_neg hleads.1]
    exact hleads.2

/-- A relative document and an absolute target, both with detours; and the directory of a document
under another name. -/
theorem entryLink_leads_detours :
    let s : Settings := { workingDirectory := ["w".toList, "x".toList] }
    let components (p : Text) := Path.steps (Path.absolute s.workingDirectory p)
    let file := "../a//./b/../c.md".toList
    let o : Entry := .directory "/w//y/../../z/.".toList "Z".toList [] none
    let here : Entry := .directory "../x/docs/./".toList "D".toList [] none
    (∃ path, entryLink s file o = .ok (link o.title path) ∧ Path.IsWay path ∧
      components (Path.join (Path.dirName file) path) = ["z".toList]) ∧
    entryLink s file o = .ok "[Z](../../z)".toList ∧
    ∃ path, entryLink s "docs/c.md".toList here = .ok (link here.title path) ∧
      path = "README.md".toList := by
  intro s components file o here
  have hcwd : ∀ c ∈ s.workingDirectory, Path.IsName c := by decide
  obtain ⟨path, hlink, hleads⟩ := entryLink_leads (o := o) hcwd
    (by decide : s.isMarkdown file) (by decide)
  rw [if_neg (by decide)] at hleads
  obtain ⟨hway, hplace⟩ := hleads
  obtain ⟨root, hlinkRoot, hroot⟩ := entryLink_leads (o := here) hcwd
    (by decide : s.isMarkdown "docs/c.md".toList) (by decide)
  rw [if_pos (by decide)] at hroot
  exact ⟨⟨path, hlink, hway, hplace.trans (by decide)⟩, by decide, root, hlinkRoot, hroot⟩

end Render

end DocTree
