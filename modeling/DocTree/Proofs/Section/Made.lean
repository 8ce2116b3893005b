import DocTree.Proofs.Section.Parents

/-!
# The order in which sections are made

A section is made when all that is beneath it is there: as soon as a heading comes that is not deeper
than its own, or at the end. So the sections of a document are not made in the order of its headings,
and of several levels outside one to six the one is reported whose section comes first in that order.
-/
namespace DocTree

mutual

/-- The sections beneath a section and then itself, as they are made. -/
def Section.made : Section → List Section
  | .mk level title anchor filename children =>
    Section.madeOf children ++ [.mk level title anchor filename children]

def Section.madeOf : List Section → List Section
  | [] => []
  | x :: rest => x.made ++ Section.madeOf rest

end

mutual

/-- The places of a section and of those beneath it in the order in which they are made, its own place
being `place`. -/
def Section.madePlaces (place : Nat) : Section → List Nat
  | .mk _ _ _ _ children => Section.madePlacesOf (place + 1) children ++ [place]

def Section.madePlacesOf (place : Nat) : List Section → List Nat
  | [] => []
  | x :: rest => x.madePlaces place ++ Section.madePlacesOf (place + x.all.length) rest

end

namespace Heading

/-- The place of the next heading that is not deeper than the one at a place; without one, the place
behind them all. -/
def closing (headings : List Heading) (i : Nat) : Nat :=
  match headings.drop i with
  | [] => i
  | h :: rest => i + 1 + (rest.takeWhile fun x => h.level < x.level).length

/-- Of two headings the first is closed sooner, or by the same one and stands behind the second. -/
def ClosesSooner (headings : List Heading) (i j : Nat) : Prop :=
  closing headings i < closing headings j ∨ closing headings i = closing headings j ∧ j < i

/-- As `gather`, where a section is made once the headings beneath it are taken, and the first level
outside one to six ends it all. -/
def make (filename : Text) (bound : Option Int) : (pending : List Heading) →
    Except LevelFault (List Section × {left : List Heading // left.length ≤ pending.length})
  | [] => .ok ([], ⟨[], Nat.le_refl _⟩)
  | h :: pending =>
    if bound.all (· < h.level) then
      match make filename (some h.level) pending with
      | .error fault => .error fault
      | .ok (children, ⟨between, hbetween⟩) =>
        match LevelFault.of? h.level with
        | some fault => .error fault
        | none =>
          match make filename bound between with
          | .error fault => .error fault
          | .ok (siblings, ⟨left, hleft⟩) =>
            .ok (.mk h.level h.title (anchor h.title) filename children :: siblings,
              ⟨left, Nat.le_succ_of_le (Nat.le_trans hleft hbetween)⟩)
    else .ok ([], ⟨h :: pending, Nat.le_refl _⟩)
termination_by pending => pending.length
decreasing_by
  · exact Nat.lt_succ_self _
  · exact Nat.lt_succ_of_le hbetween

end Heading

namespace Section

theorem madeOf_cons (x : Section) (rest : List Section) :
    madeOf (x :: rest) = madeOf x.children ++ x :: madeOf rest := by
  cases x
  rw [madeOf, made, children, List.append_assoc]
  rfl

/-- The fault of a forest is the first one that is met when its sections are made. -/
theorem faultIn?_eq_findSome? (forest : List Section) :
    faultIn? forest = (madeOf forest).findSome? fun x => LevelFault.of? x.level := by
  induction forest using forest_induction with
  | nil => rfl
  | cons x rest ihc ihr =>
    have hfault : x.fault? = (faultIn? x.children).or (LevelFault.of? x.level) := by
      cases x
      rfl
    rw [faultIn?, hfault, madeOf_cons, List.findSome?_append, List.findSome?_cons, ihc, ihr,
      Option.or_assoc]
    cases LevelFault.of? x.level <;> rfl

end Section

namespace Heading

open Section

/-- Sections are made one by one until one has a fault; without any they are those that are gathered. -/
theorem make_eq (filename : Text) (bound : Option Int) (pending : List Heading) :
    make filename bound pending =
      match faultIn? (gather filename bound pending).1 with
      | some fault => .error fault
      | none => .ok (gather filename bound pending) := by
  fun_induction gather filename bound pending with
  | case1 bound =>
    rw [make]
    rfl
  | case2 bound h pending hbound children between hbetween hinner siblings left hleft houter ihc ihr =>
    rw [hinner] at ihc
    rw [houter] at ihr
    have hfault : faultIn? (.mk h.level h.title (anchor h.title) filename children :: siblings) =
        ((faultIn? children).or (LevelFault.of? h.level)).or (faultIn? siblings) := rfl
    rw [make, if_pos hbound, ihc, hfault]
    cases faultIn? children with
    | some fault => rfl
    | none =>
      cases LevelFault.of? h.level with
      | some fault => rfl
      | none =>
        simp only [ihr]
        cases faultIn? siblings with
        | some fault => rfl
        | none => rfl
  | case3 bound h pending hbound =>
    rw [make, if_neg hbound]
    rfl

theorem closing_eq (before : List Heading) {h : Heading} {beneath after : List Heading}
    (hbeneath : ∀ x ∈ beneath, h.level < x.level) (hafter : ∀ x ∈ after.head?, x.level ≤ h.level) :
    closing (before ++ h :: (beneath ++ after)) before.length =
      before.length + 1 + beneath.length := by
  have hstop : after.takeWhile (fun x => h.level < x.level) = [] := by
    cases after with
    | nil => rfl
    | cons x after =>
      have hx : ¬ h.level < x.level := Int.not_lt.mpr (hafter x rfl)
      exact List.takeWhile_cons_of_neg (by simpa using hx)
  rw [closing, List.drop_left]
  simp only
  rw [List.takeWhile_append_of_pos (by simpa using hbeneath), hstop, List.append_nil]

theorem lt_closing {headings : List Heading} {i : Nat} (hi : i < headings.length) :
    i < closing headings i := by
  rw [closing, List.drop_eq_getElem_cons hi]
  simp only
  omega

end Heading

namespace Section

open Heading

theorem madePlacesOf_cons (place : Nat) (x : Section) (rest : List Section) :
    madePlacesOf place (x :: rest) = madePlacesOf (place + 1) x.children ++
      place :: madePlacesOf (place + 1 + (headingsOfAll x.children).length) rest := by
  have hlength : place + x.all.length = place + 1 + (headingsOfAll x.children).length := by
    rw [all_eq, List.length_cons, length_allOf]
    omega
  rw [madePlacesOf, hlength]
  cases x
  rw [madePlaces, children, List.append_assoc]
  rfl

theorem length_headingsOfAll_cons (x : Section) (rest : List Section) :
    (headingsOfAll (x :: rest)).length =
      1 + (headingsOfAll x.children).length + (headingsOfAll rest).length := by
  rw [headingsOfAll_cons, List.length_cons, List.length_append]
  omega

/-- Every place of a forest comes up once. -/
theorem madePlacesOf_perm (place : Nat) (forest : List Section) :
    (madePlacesOf place forest).Perm (List.range' place (headingsOfAll forest).length) := by
  induction forest using forest_induction generalizing place with
  | nil => exact .refl _
  | cons x rest ihc ihr =>
    have hrange : List.range' place (headingsOfAll (x :: rest)).length =
        place :: (List.range' (place + 1) (headingsOfAll x.children).length ++
          List.range' (place + 1 + (headingsOfAll x.children).length) (headingsOfAll rest).length) := by
      rw [length_headingsOfAll_cons, ← List.range'_append_1, ← List.range'_append_1]
      simp [Nat.add_assoc]
    rw [madePlacesOf_cons, hrange]
    exact List.perm_middle.trans (((ihc _).append (ihr _)).cons place)

/-- At the places there are the headings of the sections. -/
theorem map_madePlacesOf {headings : List Heading} {forest : List Section}
    (before after : List Heading) (h : headings = before ++ headingsOfAll forest ++ after) :
    (madePlacesOf before.length forest).map (headings[·]?) =
      (madeOf forest).map fun x => some x.heading := by
  induction forest using forest_induction generalizing before after with
  | nil => rfl
  | cons x rest ihc ihr =>
    rw [headingsOfAll_cons] at h
    have hself : headings[before.length]? = some x.heading := by
      rw [h]
      simp
    have hchildren := ihc (before ++ [x.heading]) (headingsOfAll rest ++ after) (by rw [h]; simp)
    have hrest := ihr (before ++ x.heading :: headingsOfAll x.children) after (by rw [h]; simp)
    rw [List.length_append, List.length_singleton] at hchildren
    rw [List.length_append, List.length_cons, Nat.add_comm (List.length _) 1, ← Nat.add_assoc] at hrest
    rw [madePlacesOf_cons, madeOf_cons, List.map_append, List.map_cons, hchildren, hself, hrest,
      List.map_append, List.map_cons]

/-- What follows a section is not deeper, if that holds of what follows all of the forest. -/
theorem Nested.level_le_of_head? {x : Section} {rest : List Section} (h : Nested (x :: rest))
    {after : List Heading} (hafter : ∀ y ∈ after.head?, ∀ r ∈ x :: rest, y.level ≤ r.level) :
    ∀ y ∈ (headingsOfAll rest ++ after).head?, y.level ≤ x.level := by
  intro y hy
  cases rest with
  | nil => exact hafter y hy x (by simp)
  | cons r rest =>
    rw [headingsOfAll_cons] at hy
    cases hy
    exact h.root_level (by simp)

/-- In the order in which they are made the headings of a nested forest are closed, and among those
that are closed together the last one comes first. -/
theorem Nested.madePlacesOf_closing {forest : List Section} (h : Nested forest)
    {headings : List Heading} (before after : List Heading)
    (hheadings : headings = before ++ headingsOfAll forest ++ after)
    (hafter : ∀ y ∈ after.head?, ∀ r ∈ forest, y.level ≤ r.level) :
    (∀ i ∈ madePlacesOf before.length forest, before.length ≤ i ∧ i < headings.length ∧
        closing headings i ≤ before.length + (headingsOfAll forest).length) ∧
      (madePlacesOf before.length forest).Pairwise (ClosesSooner headings) := by
  induction forest using forest_induction generalizing before after with
  | nil => exact ⟨by simp [madePlacesOf], .nil⟩
  | cons x rest ihc ihr =>
    rw [headingsOfAll_cons] at hheadings
    have hfollows := h.level_le_of_head? hafter
    obtain ⟨hchildren, hchildren'⟩ := ihc h.children (before ++ [x.heading])
      (headingsOfAll rest ++ after) (by rw [hheadings]; simp) fun y hy c hc =>
        Int.le_of_lt (Int.lt_of_le_of_lt (hfollows y hy) (h.child_level hc))
    obtain ⟨hrest, hrest'⟩ := ihr h.tail (before ++ x.heading :: headingsOfAll x.children)
      after (by rw [hheadings]; simp) fun y hy r hr => hafter y hy r (by simp [hr])
    have hclosing : closing headings before.length =
        before.length + 1 + (headingsOfAll x.children).length := by
      have hbeneath : ∀ y ∈ headingsOfAll x.children, x.heading.level < y.level := by
        intro y hy
        rw [← map_heading_allOf] at hy
        obtain ⟨z, hz, rfl⟩ := List.mem_map.mp hy
        exact h.children.lt_level (fun c hc => h.child_level hc) z hz
      rw [hheadings, List.append_assoc, List.cons_append, List.append_assoc]
      exact closing_eq before hbeneath hfollows
    rw [List.length_append, List.length_singleton] at hchildren hchildren'
    rw [List.length_append, List.length_cons, Nat.add_comm (List.length _) 1, ← Nat.add_assoc]
      at hrest hrest'
    have hlength : before.length < headings.length := by
      rw [hheadings]
      simp
    rw [madePlacesOf_cons, length_headingsOfAll_cons]
    constructor
    · intro i hi
      rcases List.mem_append.mp hi with hi | hi
      · have hbounds := hchildren i hi
        omega
      · rcases List.mem_cons.mp hi with rfl | hi
        · omega
        · have hbounds := hrest i hi
          omega
    · refine List.pairwise_append.mpr ⟨hchildren', List.pairwise_cons.mpr ⟨?_, hrest'⟩, ?_⟩
      · -- what is closed first stands in front of what comes after the tree
        intro j hj
        have hlater := hrest j hj
        have hlt := lt_closing hlater.2.1
        exact Or.inl (by omega)
      · intro i hi j hj
        have hbeneath := hchildren i hi
        rcases List.mem_cons.mp hj with rfl | hj
        · have hle : closing headings i ≤ closing headings before.length := by omega
          rcases Nat.lt_or_eq_of_le hle with hlt | heq
          · exact Or.inl hlt
          · exact Or.inr ⟨heq, by omega⟩
        · have hlater := hrest j hj
          have hlt := lt_closing hlater.2.1
          exact Or.inl (by omega)

end Section

namespace Heading

open Section

variable {filename : Text} {headings : List Heading}

theorem levelFault_eq_some {level : Int} {fault : LevelFault} : LevelFault.of? level = some fault ↔
    level < 1 ∧ fault = .low level ∨ 6 < level ∧ fault = .high level := by
  unfold LevelFault.of?
  split
  · rename_i hlow
    have hhigh : ¬ 6 < level := by omega
    simp [hlow, hhigh, eq_comm]
  · rename_i hlow
    split
    · rename_i hhigh
      simp [hlow, hhigh, eq_comm]
    · rename_i hhigh
      simp [hlow, hhigh]

/-- What is wrong with some headings is the first fault of their sections as they are made. -/
theorem sections_eq_error {fault : LevelFault} : sections filename headings = .error fault ↔
    ∃ before x after, madeOf (nest filename headings) = before ++ x :: after ∧
      LevelFault.of? x.level = some fault ∧ ∀ y ∈ before, LevelFault.of? y.level = none := by
  rw [← List.findSome?_eq_some_iff, ← faultIn?_eq_findSome?, sections]
  cases faultIn? (nest filename headings) <;> simp

theorem exists_fault_iff : (∃ fault, sections filename headings = .error fault) ↔
    ∃ h ∈ headings, h.level < 1 ∨ 6 < h.level := by
  have hnone : faultIn? (nest filename headings) = none ↔ _ := faultIn?_eq_none
  rw [headingsOfAll_nest] at hnone
  have hlevels : (∃ h ∈ headings, h.level < 1 ∨ 6 < h.level) ↔
      ¬ ∀ h ∈ headings, 1 ≤ h.level ∧ h.level ≤ 6 := by
    push Not
    refine exists_congr fun h => and_congr_right fun _ => ?_
    omega
  rw [hlevels, ← hnone, sections]
  cases faultIn? (nest filename headings) <;> simp

/-- To make sections one by one, each when all the headings beneath it are taken, comes to the same as
to look for a level outside one to six in the forest of all the headings. It is the order in which the
headings are closed: by the next heading that is not deeper, or at the end, and what is beneath a heading
before it. Headings are refused exactly if one of their levels lies outside one to six, and the fault
tells the level of the first such heading in that order. -/
theorem sections_fault (filename : Text) (headings : List Heading) :
    let made := madeOf (gather filename none headings).1
    (make filename none headings).map (·.1) = sections filename headings ∧
      (∃ order : List Nat, order.Perm (List.range headings.length) ∧
        order.Pairwise (ClosesSooner headings) ∧
        order.map (headings[·]?) = made.map fun x => some x.heading) ∧
      ((∃ fault, sections filename headings = .error fault) ↔
        ∃ h ∈ headings, h.level < 1 ∨ 6 < h.level) ∧
      ∀ fault, sections filename headings = .error fault ↔
        ∃ before x after, made = before ++ x :: after ∧
          (∀ y ∈ before, 1 ≤ y.level ∧ y.level ≤ 6) ∧
          (x.level < 1 ∧ fault = .low x.level ∨ 6 < x.level ∧ fault = .high x.level) := by
  obtain ⟨hforest, -⟩ := gather_none filename headings
  have hheadings : headings = [] ++ headingsOfAll (nest filename headings) ++ [] := by simp
  simp only [hforest]
  refine ⟨?_, ⟨madePlacesOf 0 (nest filename headings), ?_, ?_, ?_⟩, exists_fault_iff, ?_⟩
  · rw [make_eq, hforest, sections]
    cases faultIn? (nest filename headings) with
    | some fault => rfl
    | none => exact congrArg Except.ok hforest
  · have hperm := madePlacesOf_perm 0 (nest filename headings)
    rwa [headingsOfAll_nest, ← List.range_eq_range'] at hperm
  · exact ((nested_nest filename headings).madePlacesOf_closing [] [] hheadings (by simp)).2
  · exact map_madePlacesOf [] [] hheadings
  · intro fault
    simp only [sections_eq_error, levelFault_eq_some, levelFault_eq_none]
    refine exists_congr fun before => exists_congr fun x => exists_congr fun after => ?_
    rw [and_comm (b := ∀ y ∈ before, _)]

/-- All levels are wrong, and the one that is reported is that of the innermost section. -/
example : sections "a.md".toList
    [⟨0, "a".toList⟩, ⟨7, "b".toList⟩, ⟨8, "c".toList⟩, ⟨-1, "d".toList⟩] = .error (.high 8) :=
  rfl

end Heading

end DocTree
