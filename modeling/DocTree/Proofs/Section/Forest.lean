import DocTree.Section
import Mathlib.Data.List.Chain
import Mathlib.Data.List.TakeWhile

/-!
# Forests of sections

The one forest of a list of headings. In order it gives the headings back, and the section above a
heading is that of the nearest shallower heading before it. To say the same of a forest by itself:
what lies beneath a section is deeper, and siblings do not get deeper from one to the next. Both
ways of reading headings come to it: putting them in front of a forest from the last one on, and
taking them from the front for as long as they are deeper.
-/
namespace DocTree

namespace Section

def heading (x : Section) : Heading :=
  ⟨x.level, x.title⟩

end Section

mutual

def Section.all : Section → List Section
  | .mk level title anchor filename children =>
    .mk level title anchor filename children :: Section.allOf children

def Section.allOf : List Section → List Section
  | [] => []
  | x :: rest => x.all ++ Section.allOf rest

end

namespace Section

/-- What lies right beneath a section is deeper than it, and no sibling is deeper than the one
before it. -/
structure Nested (forest : List Section) : Prop where
  deeper : ∀ x ∈ allOf forest, ∀ c ∈ x.children, x.level < c.level
  siblings : ∀ x ∈ allOf forest, x.children.IsChain fun a b => b.level ≤ a.level
  roots : forest.IsChain fun a b => b.level ≤ a.level

def Labelled (filename : Text) (forest : List Section) : Prop :=
  ∀ x ∈ allOf forest, x.filename = filename ∧ x.anchor = Heading.anchor x.title

/-- A property of forests holds if it passes from the children of a first section and from its
siblings to the whole. -/
theorem forest_induction {motive : List Section → Prop} (nil : motive [])
    (cons : ∀ x rest, motive x.children → motive rest → motive (x :: rest)) :
    ∀ forest, motive forest
  | [] => nil
  | .mk _ _ _ _ children :: rest =>
    cons _ _ (forest_induction nil cons children) (forest_induction nil cons rest)

theorem all_eq (x : Section) : x.all = x :: allOf x.children := by
  cases x
  rw [all, children]

theorem headings_eq (x : Section) : x.headings = x.heading :: headingsOfAll x.children := by
  cases x
  rw [headings, children]
  rfl

theorem allOf_cons (x : Section) (rest : List Section) :
    allOf (x :: rest) = x :: (allOf x.children ++ allOf rest) := by
  rw [allOf, all_eq, List.cons_append]

theorem headingsOfAll_cons (x : Section) (rest : List Section) :
    headingsOfAll (x :: rest) = x.heading :: (headingsOfAll x.children ++ headingsOfAll rest) := by
  rw [headingsOfAll, headings_eq, List.cons_append]

@[simp] theorem allOf_append (forest rest : List Section) :
    allOf (forest ++ rest) = allOf forest ++ allOf rest := by
  induction forest with
  | nil => rfl
  | cons x forest ih => simp [allOf, ih]

/-- The headings of a forest are those of its sections. -/
theorem map_heading_allOf (forest : List Section) :
    (allOf forest).map heading = headingsOfAll forest := by
  induction forest using forest_induction with
  | nil => rfl
  | cons x rest ihc ihr => rw [allOf_cons, headingsOfAll_cons, List.map_cons, List.map_append, ihc, ihr]

theorem headingsOfAll_eq_nil {forest : List Section} : headingsOfAll forest = [] ↔ forest = [] := by
  cases forest with
  | nil => simp [headingsOfAll]
  | cons x rest => simp [headingsOfAll_cons]

theorem Labelled.eq_mk {filename : Text} {forest : List Section} {x : Section}
    (h : Labelled filename forest) (hx : x ∈ allOf forest) :
    x = .mk x.level x.title (Heading.anchor x.title) filename x.children := by
  obtain ⟨hfilename, hanchor⟩ := h x hx
  rw [← hfilename, ← hanchor]
  cases x
  rfl

def isBelow (level : Int) (x : Section) : Bool :=
  level < x.level

theorem nested_nil : Nested [] :=
  ⟨by simp [allOf], by simp [allOf], .nil⟩

theorem Nested.children {x : Section} {rest : List Section} (h : Nested (x :: rest)) :
    Nested x.children where
  deeper y hy := h.deeper y (by simp [allOf_cons, hy])
  siblings y hy := h.siblings y (by simp [allOf_cons, hy])
  roots := h.siblings x (by simp [allOf_cons])

theorem Nested.tail {x : Section} {rest : List Section} (h : Nested (x :: rest)) : Nested rest where
  deeper y hy := h.deeper y (by simp [allOf_cons, hy])
  siblings y hy := h.siblings y (by simp [allOf_cons, hy])
  roots := h.roots.tail

theorem Nested.child_level {x c : Section} {rest : List Section} (h : Nested (x :: rest))
    (hc : c ∈ x.children) : x.level < c.level :=
  h.deeper x (by simp [allOf_cons]) c hc

/-- All roots after the first are at most as deep. -/
theorem Nested.root_level {x r : Section} {rest : List Section} (h : Nested (x :: rest))
    (hr : r ∈ rest) : r.level ≤ x.level :=
  List.rel_of_pairwise_cons (List.isChain_iff_pairwise.mp h.roots) hr

/-- In a nested forest everything is deeper than what all its roots are deeper than. -/
theorem Nested.lt_level {forest : List Section} (h : Nested forest) {bound : Int}
    (hroots : ∀ r ∈ forest, bound < r.level) : ∀ y ∈ allOf forest, bound < y.level := by
  induction forest using forest_induction generalizing bound with
  | nil => simp [allOf]
  | cons x rest ihc ihr =>
    have hx := hroots x (by simp)
    intro y hy
    rw [allOf_cons, List.mem_cons, List.mem_append] at hy
    rcases hy with rfl | hy | hy
    · exact hx
    · exact Int.lt_trans hx (ihc h.children (fun c hc => h.child_level hc) y hy)
    · exact ihr h.tail (fun r hr => hroots r (by simp [hr])) y hy

/-- A section may be put in front of a forest if its children are deeper and its siblings not. -/
theorem Nested.cons {x : Section} {rest : List Section} (hchildren : Nested x.children)
    (hrest : Nested rest) (hdeeper : ∀ c ∈ x.children, x.level < c.level)
    (hnext : ∀ r ∈ rest.head?, r.level ≤ x.level) : Nested (x :: rest) := by
  have hall : ∀ y ∈ allOf (x :: rest), y = x ∨ y ∈ allOf x.children ∨ y ∈ allOf rest := by
    simp [allOf_cons]
  constructor
  · intro y hy
    rcases hall y hy with rfl | hy | hy
    · exact hdeeper
    · exact hchildren.deeper y hy
    · exact hrest.deeper y hy
  · intro y hy
    rcases hall y hy with rfl | hy | hy
    · exact hchildren.roots
    · exact hchildren.siblings y hy
    · exact hrest.siblings y hy
  · exact List.isChain_cons.mpr ⟨hnext, hrest.roots⟩

/-- The children of a first section and its siblings are one forest when it is taken away. -/
theorem Nested.release {x : Section} {rest : List Section} (h : Nested (x :: rest)) :
    Nested (x.children ++ rest) where
  deeper y hy := by
    rw [allOf_append] at hy
    exact (List.mem_append.mp hy).elim (h.children.deeper y) (h.tail.deeper y)
  siblings y hy := by
    rw [allOf_append] at hy
    exact (List.mem_append.mp hy).elim (h.children.siblings y) (h.tail.siblings y)
  roots := by
    refine List.isChain_append.mpr ⟨h.children.roots, h.tail.roots, ?_⟩
    intro c hc r hr
    have hchild := h.child_level (List.mem_of_getLast? hc)
    have hroot := h.root_level (List.mem_of_head? hr)
    omega

/-- When the first section takes the deeper ones of such a forest, it takes its children. -/
theorem Nested.parts {x : Section} {rest : List Section} (h : Nested (x :: rest)) :
    (x.children ++ rest).takeWhile (isBelow x.level) = x.children ∧
      (x.children ++ rest).dropWhile (isBelow x.level) = rest := by
  have htake : ∀ c ∈ x.children, isBelow x.level c :=
    fun c hc => decide_eq_true (h.child_level hc)
  rw [List.takeWhile_append_of_pos htake, List.dropWhile_append_of_pos htake]
  cases rest with
  | nil => simp
  | cons r rest =>
    have hstop : isBelow x.level r = false :=
      decide_eq_false (Int.not_lt.mpr (h.root_level List.mem_cons_self))
    simp [hstop]

theorem Nested.of_append {forest rest : List Section} (h : Nested (forest ++ rest)) :
    Nested forest ∧ Nested rest := by
  have hroots := List.isChain_append.mp h.roots
  constructor
  · exact ⟨fun y hy => h.deeper y (by simp [hy]), fun y hy => h.siblings y (by simp [hy]), hroots.1⟩
  · exact ⟨fun y hy => h.deeper y (by simp [hy]), fun y hy => h.siblings y (by simp [hy]), hroots.2.1⟩

end Section

namespace Heading

open Section

variable {filename : Text}

theorem nest_cons (filename : Text) (h : Heading) (headings : List Heading) :
    nest filename (h :: headings) =
      .mk h.level h.title (anchor h.title) filename
          ((nest filename headings).takeWhile (isBelow h.level)) ::
        (nest filename headings).dropWhile (isBelow h.level) := rfl

/-- Nesting makes a nested forest. -/
theorem nested_nest (filename : Text) (headings : List Heading) : Nested (nest filename headings) := by
  induction headings with
  | nil => exact nested_nil
  | cons h headings ih =>
    rw [nest_cons]
    have hparts := List.takeWhile_append_dropWhile (p := isBelow h.level) (l := nest filename headings)
    rw [← hparts] at ih
    have hdeeper : ∀ c ∈ (nest filename headings).takeWhile (isBelow h.level),
        h.level < c.level := by
      intro c hc
      have hbelow : isBelow h.level c := List.mem_takeWhile_imp hc
      exact of_decide_eq_true hbelow
    have hnext : ∀ r ∈ ((nest filename headings).dropWhile (isBelow h.level)).head?,
        r.level ≤ h.level := by
      intro r hr
      have hstop := List.head?_dropWhile_not (isBelow h.level) (nest filename headings)
      rw [Option.mem_def.mp hr] at hstop
      exact Int.not_lt.mp (of_decide_eq_false hstop)
    exact Nested.cons (x := .mk _ _ _ _ _) ih.of_append.1 ih.of_append.2 hdeeper hnext

theorem labelled_nest (filename : Text) (headings : List Heading) :
    Labelled filename (nest filename headings) := by
  induction headings with
  | nil => simp [Labelled, nest, allOf]
  | cons h headings ih =>
    rw [nest_cons]
    intro x hx
    have hparts := List.takeWhile_append_dropWhile (p := isBelow h.level) (l := nest filename headings)
    rw [allOf_cons, ← allOf_append] at hx
    rcases List.mem_cons.mp hx with rfl | hx
    · exact ⟨rfl, rfl⟩
    · rw [Section.children, hparts] at hx
      exact ih x hx

/-- No other forest is nested and gives the headings back. -/
theorem eq_nest {forest : List Section} {headings : List Heading} (hforest : Nested forest)
    (hlabelled : Labelled filename forest) (hheadings : headingsOfAll forest = headings) :
    forest = nest filename headings := by
  induction headings generalizing forest with
  | nil => exact headingsOfAll_eq_nil.mp hheadings
  | cons h headings ih =>
    cases forest with
    | nil => cases hheadings
    | cons x rest =>
      rw [headingsOfAll_cons, ← headingsOfAll_append] at hheadings
      obtain ⟨hhead, htail⟩ := List.cons.inj hheadings
      have hrest : x.children ++ rest = nest filename headings := by
        apply ih hforest.release ?_ htail
        intro y hy
        rw [allOf_append] at hy
        exact hlabelled y (by simp [allOf_cons, List.mem_append.mp hy])
      have hparts := hforest.parts
      subst hhead
      rw [nest_cons, ← hrest, heading, hparts.1, hparts.2]
      exact congrArg (· :: rest) (hlabelled.eq_mk (by simp [allOf_cons]))

end Heading

end DocTree
