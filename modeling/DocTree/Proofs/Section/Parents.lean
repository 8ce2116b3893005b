import DocTree.Proofs.Section.Forest
import Mathlib.Data.List.Basic

/-!
# The section above a heading

In the forest of some headings the section above a heading is that of the nearest shallower heading
before it; only one forest has this property. It comes out as well if headings are taken from the
front of a list one by one, each with the deeper ones behind it.
-/
namespace DocTree

mutual

/-- The places of the sections above a section and above those beneath it, in order. `place` is its
own place and `above` that of the section above it. -/
def Section.parents (above : Option Nat) (place : Nat) : Section → List (Option Nat)
  | .mk _ _ _ _ children => above :: Section.parentsOf (some place) (place + 1) children

def Section.parentsOf (above : Option Nat) (place : Nat) : List Section → List (Option Nat)
  | [] => []
  | x :: rest => x.parents above place ++ Section.parentsOf above (place + x.all.length) rest

end

namespace Heading

/-- The place of the last of some headings that is shallower than a level, places being counted from
`start` on. -/
def nearest? (start : Nat) (headings : List Heading) (level : Int) : Option Nat :=
  ((headings.zipIdx start).reverse.find? fun p => p.1.level < level).map (·.2)

def parentsAfter (before : List Heading) : List Heading → List (Option Nat)
  | [] => []
  | h :: rest => nearest? 0 before h.level :: parentsAfter (before ++ [h]) rest

def parents (headings : List Heading) : List (Option Nat) :=
  parentsAfter [] headings

/-- Takes headings from the front of a list for as long as they are deeper than a bound, each with the
deeper ones behind it beneath it: their sections, and the headings that are left. -/
def gather (filename : Text) (bound : Option Int) : (pending : List Heading) →
    List Section × {left : List Heading // left.length ≤ pending.length}
  | [] => ([], ⟨[], Nat.le_refl _⟩)
  | h :: pending =>
    if bound.all (· < h.level) then
      match gather filename (some h.level) pending with
      | (children, ⟨between, hbetween⟩) =>
        match gather filename bound between with
        | (siblings, ⟨left, hleft⟩) =>
          (.mk h.level h.title (anchor h.title) filename children :: siblings,
            ⟨left, Nat.le_succ_of_le (Nat.le_trans hleft hbetween)⟩)
    else ([], ⟨h :: pending, Nat.le_refl _⟩)
termination_by pending => pending.length
decreasing_by
  · exact Nat.lt_succ_self _
  · exact Nat.lt_succ_of_le hbetween

section

variable {start i : Nat} {headings rest : List Heading} {level : Int}

theorem nearest?_append (start : Nat) (headings rest : List Heading) (level : Int) :
    nearest? start (headings ++ rest) level =
      (nearest? (start + headings.length) rest level).or (nearest? start headings level) := by
  rw [nearest?, List.zipIdx_append, List.reverse_append, List.find?_append, Option.map_or]
  rfl

theorem nearest?_eq_none :
    nearest? start headings level = none ↔ ∀ h ∈ headings, level ≤ h.level := by
  induction headings generalizing start with
  | nil => simp [nearest?]
  | cons h headings ih =>
    rw [← List.singleton_append, nearest?_append, Option.or_eq_none_iff, ih]
    simp [nearest?, and_comm]

theorem nearest?_bounds (h : nearest? start headings level = some i) :
    start ≤ i ∧ i < start + headings.length := by
  obtain ⟨⟨x, j⟩, hfind, rfl⟩ := Option.map_eq_some_iff.mp h
  have hmem := List.mem_reverse.mp (List.mem_of_find?_eq_some hfind)
  have hbounds := List.mem_zipIdx hmem
  omega

/-- Headings that are not shallower do not come between. -/
theorem nearest?_append_of_le (h : ∀ x ∈ rest, level ≤ x.level) :
    nearest? start (headings ++ rest) level = nearest? start headings level := by
  rw [nearest?_append, nearest?_eq_none.mpr h, Option.none_or]

theorem nearest?_concat {h : Heading} (hlevel : h.level < level) :
    nearest? 0 (headings ++ [h]) level = some headings.length := by
  rw [nearest?_append]
  simp [nearest?, hlevel]

/-- A shallower heading is the nearest, or one behind it is. -/
theorem exists_nearest? (headings rest : List Heading) {h : Heading} (hlevel : h.level < level) :
    ∃ i, nearest? 0 (headings ++ [h] ++ rest) level = some i ∧ headings.length ≤ i := by
  rw [nearest?_append, nearest?_concat hlevel]
  cases hrest : nearest? (0 + (headings ++ [h]).length) rest level with
  | none => exact ⟨headings.length, rfl, Nat.le_refl _⟩
  | some i =>
    have hbounds := (nearest?_bounds hrest).1
    rw [List.length_append] at hbounds
    exact ⟨i, rfl, by omega⟩

theorem nearest?_concat_of_le {h : Heading} (hlevel : level ≤ h.level) :
    nearest? 0 (headings ++ [h]) level = nearest? 0 headings level :=
  nearest?_append_of_le (by simpa using hlevel)

theorem parentsAfter_append (before headings rest : List Heading) :
    parentsAfter before (headings ++ rest) =
      parentsAfter before headings ++ parentsAfter (before ++ headings) rest := by
  induction headings generalizing before with
  | nil => simp [parentsAfter]
  | cons h headings ih => simp [parentsAfter, ih]

@[simp] theorem length_parentsAfter (before headings : List Heading) :
    (parentsAfter before headings).length = headings.length := by
  induction headings generalizing before with
  | nil => rfl
  | cons h headings ih => simp [parentsAfter, ih]

end

end Heading

namespace Section

open Heading

variable {forest : List Section}

theorem length_allOf (forest : List Section) : (allOf forest).length = (headingsOfAll forest).length := by
  rw [← map_heading_allOf, List.length_map]

theorem parentsOf_cons (above : Option Nat) (place : Nat) (x : Section) (rest : List Section) :
    parentsOf above place (x :: rest) =
      above :: (parentsOf (some place) (place + 1) x.children ++
        parentsOf above (place + 1 + (headingsOfAll x.children).length) rest) := by
  have hlength : place + x.all.length = place + 1 + (headingsOfAll x.children).length := by
    rw [all_eq, List.length_cons, length_allOf]
    omega
  rw [parentsOf, hlength]
  cases x
  rw [parents, children, List.cons_append]

@[simp] theorem length_parentsOf (above : Option Nat) (place : Nat) (forest : List Section) :
    (parentsOf above place forest).length = (headingsOfAll forest).length := by
  induction forest using forest_induction generalizing above place with
  | nil => rfl
  | cons x rest ihc ihr => simp [parentsOf_cons, headingsOfAll_cons, ihc, ihr]

/-- Everything in the first tree of a nested forest is at least as deep as its siblings. -/
theorem Nested.level_le {x r : Section} {rest : List Section} (h : Nested (x :: rest)) (hr : r ∈ rest) :
    ∀ y ∈ x.heading :: headingsOfAll x.children, r.level ≤ y.level := by
  have hroot := h.root_level hr
  intro y hy
  rw [← map_heading_allOf] at hy
  rcases List.mem_cons.mp hy with rfl | hy
  · exact hroot
  · obtain ⟨z, hz, rfl⟩ := List.mem_map.mp hy
    have hdeeper := h.children.lt_level (fun c hc => h.child_level hc) z hz
    exact Int.le_trans hroot (Int.le_of_lt hdeeper)

/-- In a nested forest behind some headings the section above each is the nearest shallower one, if
that is so of the roots. -/
theorem Nested.parentsOf_eq (h : Nested forest) (before : List Heading) {above : Option Nat}
    (habove : ∀ r ∈ forest, nearest? 0 before r.level = above) :
    parentsOf above before.length forest = parentsAfter before (headingsOfAll forest) := by
  induction forest using forest_induction generalizing before above with
  | nil => rfl
  | cons x rest ihc ihr =>
    have hself : nearest? 0 before x.heading.level = above := habove x (by simp)
    have hchildren := ihc h.children (before ++ [x.heading])
      fun c hc => nearest?_concat (h.child_level hc)
    have hrest := ihr h.tail (before ++ [x.heading] ++ headingsOfAll x.children) fun r hr => by
      rw [List.append_assoc, List.singleton_append, nearest?_append_of_le (h.level_le hr),
        habove r (by simp [hr])]
    rw [List.length_append, List.length_append, List.length_singleton] at hrest
    rw [List.length_append, List.length_singleton] at hchildren
    rw [parentsOf_cons, headingsOfAll_cons, parentsAfter, parentsAfter_append, hself, hchildren, hrest]

/-- A forest in which the section above each is the nearest shallower one is nested, and so it is for
the roots. -/
theorem nested_of_parentsOf (before : List Heading) {above : Option Nat}
    (h : parentsOf above before.length forest = parentsAfter before (headingsOfAll forest)) :
    Nested forest ∧ ∀ r ∈ forest, nearest? 0 before r.level = above := by
  induction forest using forest_induction generalizing before above with
  | nil => exact ⟨nested_nil, by simp⟩
  | cons x rest ihc ihr =>
    rw [parentsOf_cons, headingsOfAll_cons, parentsAfter, parentsAfter_append] at h
    obtain ⟨hself, hbeneath⟩ := List.cons.inj h
    obtain ⟨hchildren, hrest⟩ := List.append_inj hbeneath (by simp)
    obtain ⟨hchildren, habove⟩ := ihc (before ++ [x.heading])
      (by rw [List.length_append, List.length_singleton, hchildren])
    obtain ⟨hrest, habove'⟩ := ihr (before ++ [x.heading] ++ headingsOfAll x.children)
      (by rw [List.length_append, List.length_append, List.length_singleton, hrest])
    have hdeeper : ∀ c ∈ x.children, x.level < c.level := by
      intro c hc
      by_contra hle
      have hnear := habove c hc
      rw [nearest?_concat_of_le (Int.not_lt.mp hle)] at hnear
      have hbounds := nearest?_bounds hnear
      omega
    have hnext : ∀ r ∈ rest.head?, r.level ≤ x.level := by
      intro r hr
      by_contra hlt
      obtain ⟨i, hi, hle⟩ := exists_nearest? before (headingsOfAll x.children) (h := x.heading)
        (Int.not_le.mp hlt)
      rw [habove' r (List.mem_of_head? hr), hself] at hi
      have hbounds := nearest?_bounds hi
      omega
    have hall := Nested.cons hchildren hrest hdeeper hnext
    have hroots : ∀ r ∈ rest, nearest? 0 before r.level = above := by
      intro r hr
      rw [← habove' r hr, List.append_assoc, List.singleton_append,
        nearest?_append_of_le (hall.level_le hr)]
    exact ⟨hall, by simpa using ⟨hself.symm, hroots⟩⟩

/-- Without anything in front of it a forest is nested exactly if the section above each is the
nearest shallower one. -/
theorem parentsOf_eq_iff :
    parentsOf none 0 forest = Heading.parents (headingsOfAll forest) ↔ Nested forest := by
  constructor
  · exact fun h => (nested_of_parentsOf [] h).1
  · exact fun h => h.parentsOf_eq [] fun r _ => nearest?_eq_none.mpr (by simp)

end Section

namespace Heading

open Section

variable {filename : Text} {bound : Option Int} {pending : List Heading}

def isWithin (bound : Option Int) (x : Section) : Bool :=
  bound.all fun level => isBelow level x

theorem isWithin_some (level : Int) : isWithin (some level) = isBelow level := rfl

/-- What is gathered are the first trees of the forest of all the headings, as long as they are deeper
than the bound. The trees behind them are the forest of what is left. -/
theorem gather_eq (filename : Text) (bound : Option Int) (pending : List Heading) :
    (gather filename bound pending).1 = (nest filename pending).takeWhile (isWithin bound) ∧
      nest filename (gather filename bound pending).2.1 =
        (nest filename pending).dropWhile (isWithin bound) := by
  fun_induction gather filename bound pending with
  | case1 => exact ⟨rfl, rfl⟩
  | case2 bound h pending hbound children between _ hinner siblings left _ houter ihc ihr =>
    rw [hinner, isWithin_some] at ihc
    rw [houter] at ihr
    obtain ⟨hchildren, hbetween⟩ := ihc
    obtain ⟨hsiblings, hleft⟩ := ihr
    rw [hbetween] at hsiblings hleft
    have hfirst : isWithin bound (.mk h.level h.title (anchor h.title) filename
        ((nest filename pending).takeWhile (isBelow h.level))) := hbound
    rw [nest_cons, List.takeWhile_cons_of_pos hfirst, List.dropWhile_cons_of_pos hfirst]
    exact ⟨congrArg₂ List.cons (congrArg _ hchildren) hsiblings, hleft⟩
  | case3 bound h pending hbound =>
    have hfirst : ¬ isWithin bound (.mk h.level h.title (anchor h.title) filename
        ((nest filename pending).takeWhile (isBelow h.level))) := hbound
    rw [nest_cons, List.takeWhile_cons_of_neg hfirst, List.dropWhile_cons_of_neg hfirst]
    exact ⟨rfl, rfl⟩

theorem nest_eq_nil {headings : List Heading} : nest filename headings = [] ↔ headings = [] := by
  rw [← headingsOfAll_eq_nil, headingsOfAll_nest]

/-- Without a bound all headings are gathered. -/
theorem gather_none (filename : Text) (headings : List Heading) :
    (gather filename none headings).1 = nest filename headings ∧
      (gather filename none headings).2.1 = [] := by
  obtain ⟨hforest, hleft⟩ := gather_eq filename none headings
  have hall : ∀ x ∈ nest filename headings, isWithin none x := fun _ _ => rfl
  rw [List.takeWhile_eq_self_iff.mpr hall] at hforest
  rw [List.dropWhile_eq_nil_iff.mpr hall, nest_eq_nil] at hleft
  exact ⟨hforest, hleft⟩

theorem levelFault_eq_none {level : Int} : LevelFault.of? level = none ↔ 1 ≤ level ∧ level ≤ 6 := by
  unfold LevelFault.of?
  split
  · simp
    omega
  · split
    · simp
      omega
    · simp
      omega

/-- A forest is without fault if all its levels lie between one and six. -/
theorem faultIn?_eq_none {forest : List Section} :
    faultIn? forest = none ↔ ∀ h ∈ headingsOfAll forest, 1 ≤ h.level ∧ h.level ≤ 6 := by
  induction forest using forest_induction with
  | nil => simp [faultIn?, headingsOfAll]
  | cons x rest ihc ihr =>
    have hfault : x.fault? = (faultIn? x.children).or (LevelFault.of? x.level) := by
      cases x
      rfl
    have hself : LevelFault.of? x.level = none ↔ 1 ≤ x.heading.level ∧ x.heading.level ≤ 6 :=
      levelFault_eq_none
    rw [faultIn?, hfault, headingsOfAll_cons, Option.or_eq_none_iff, Option.or_eq_none_iff, ihc, ihr,
      hself, List.forall_mem_cons, List.forall_mem_append, and_comm (b := _ ∧ _), and_assoc]

/-- Headings are refused only if one of their levels does not lie between one and six. -/
theorem sections_eq_ok {headings : List Heading} {forest : List Section} :
    sections filename headings = .ok forest ↔
      (∀ h ∈ headings, 1 ≤ h.level ∧ h.level ≤ 6) ∧ nest filename headings = forest := by
  rw [← headingsOfAll_nest filename headings, ← faultIn?_eq_none, headingsOfAll_nest, sections]
  cases faultIn? (nest filename headings) <;> simp

/-- A forest of some headings is their only one in which the section above each is that of the nearest
shallower heading before it, and the only one in which what lies beneath a section is deeper and
siblings do not get deeper. -/
theorem nest_unique (filename : Text) (headings : List Heading) (other : List Section) :
    (other = nest filename headings ↔ Labelled filename other ∧ headingsOfAll other = headings ∧
        parentsOf none 0 other = parents headings) ∧
      (other = nest filename headings ↔ Labelled filename other ∧ headingsOfAll other = headings ∧
        Nested other) := by
  have hnested : other = nest filename headings ↔ Labelled filename other ∧
      headingsOfAll other = headings ∧ Nested other := by
    constructor
    · rintro rfl
      exact ⟨labelled_nest filename headings, headingsOfAll_nest filename headings,
        nested_nest filename headings⟩
    · rintro ⟨hlabelled, hheadings, hnested⟩
      exact eq_nest hnested hlabelled hheadings
  refine ⟨hnested.trans (and_congr_right fun _ => and_congr_right fun hheadings => ?_), hnested⟩
  rw [← hheadings, parentsOf_eq_iff]

/-- The sections of some headings with levels from one to six. They are what one gets by taking
headings from the front of the list for as long as there are any, each with the deeper ones behind it,
which leaves none. Every section has the given file name and the anchor of its title, and in order they
give the headings back. It is the only such forest in which the parent of each
heading is the nearest shallower one before it, and the only one in which each child is deeper than
its parent and no section is deeper than the sibling before it. -/
theorem sections_unique (filename : Text) (headings : List Heading)
    (hlevels : ∀ h ∈ headings, 1 ≤ h.level ∧ h.level ≤ 6) :
    ∃ forest, sections filename headings = .ok forest ∧
      (gather filename none headings).1 = forest ∧ (gather filename none headings).2.1 = [] ∧
      (∀ other, other = forest ↔ Labelled filename other ∧ headingsOfAll other = headings ∧
        parentsOf none 0 other = parents headings) ∧
      ∀ other, other = forest ↔ Labelled filename other ∧ headingsOfAll other = headings ∧
        Nested other := by
  obtain ⟨hgather, hleft⟩ := gather_none filename headings
  exact ⟨nest filename headings, sections_eq_ok.mpr ⟨hlevels, rfl⟩, hgather, hleft,
    fun other => (nest_unique filename headings other).1,
    fun other => (nest_unique filename headings other).2⟩

/-- A first heading that is deep, levels that are left out, and a heading that closes several. -/
theorem sections_unique_jumps :
    let headings : List Heading := [⟨3, "a".toList⟩, ⟨1, "b".toList⟩, ⟨2, "c".toList⟩,
      ⟨5, "d".toList⟩, ⟨4, "e".toList⟩, ⟨2, "f".toList⟩, ⟨1, "g".toList⟩]
    ∃ forest, sections "a.md".toList headings = .ok forest ∧ headingsOfAll forest = headings ∧
      parentsOf none 0 forest = [none, none, some 1, some 2, some 2, some 1, none] := by
  intro headings
  obtain ⟨forest, hforest, -, -, hunique, -⟩ := sections_unique "a.md".toList headings (by decide)
  obtain ⟨-, hheadings, hparents⟩ := (hunique forest).mp rfl
  exact ⟨forest, hforest, hheadings, hparents.trans (by decide)⟩

end Heading

end DocTree
