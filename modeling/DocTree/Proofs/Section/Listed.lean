import DocTree.Proofs.Load.Documents
import DocTree.Proofs.Markdown.Levels
import DocTree.Proofs.Section.Parents
import DocTree.Render

/-!
# Headings that a table of contents lists

A table of contents leaves out a section that is too deep with all that is beneath it. As what is
beneath is deeper, exactly those sections are listed whose own level is not too deep. So the table of
a document is that of its headings one by one, without the title.
-/
namespace DocTree

/-- The headings of a text that are listed, whatever their levels: all but a first one of the first
level, which is the title. -/
def Text.listed (text : Text) : List Heading :=
  match text.headings with
  | [] => []
  | h :: rest => if h.level = 1 then rest else h :: rest

def Heading.bullet (h : Heading) : Text :=
  List.replicate (2 * max 0 (h.level - 2)).toNat ' ' ++ "- [".toList ++ h.title ++ "](".toList ++
    Heading.anchor h.title ++ [')']

namespace Section

theorem flattenAll_cons (limit : Int) (x : Section) (rest : List Section) :
    flattenAll limit (x :: rest) =
      (if limit < x.level then [] else x :: flattenAll limit x.children) ++ flattenAll limit rest := by
  cases x
  rw [flattenAll, flatten]
  rfl

/-- Of a nested forest all sections are listed that are not too deep themselves. -/
theorem Nested.flattenAll_eq {forest : List Section} (h : Nested forest) (limit : Int) :
    flattenAll limit forest = (allOf forest).filter (·.level ≤ limit) := by
  induction forest using forest_induction with
  | nil => rfl
  | cons x rest ihc ihr =>
    rw [flattenAll_cons, allOf_cons, ihc h.children, ihr h.tail, List.filter_cons, List.filter_append]
    by_cases hlimit : limit < x.level
    · have hnone : (allOf x.children).filter (·.level ≤ limit) = [] := by
        rw [List.filter_eq_nil_iff]
        intro y hy
        have hdeeper := h.children.lt_level (fun c hc => h.child_level hc) y hy
        simp
        omega
      have hself : ¬ x.level ≤ limit := Int.not_le.mpr hlimit
      simp [hlimit, hself, hnone]
    · have hself : x.level ≤ limit := Int.not_lt.mp hlimit
      simp [hlimit, hself]

/-- What a section of a labelled forest shows is that of its heading. -/
theorem Labelled.tocLine {filename : Text} {forest : List Section} {x : Section}
    (h : Labelled filename forest) (hx : x ∈ allOf forest) : Render.tocLine x = x.heading.bullet := by
  have hanchor := (h x hx).2
  have hindent : 2 * (x.level - 2).toNat = (2 * max 0 (x.level - 2)).toNat := by omega
  rw [Render.tocLine, Render.link, hanchor, hindent, Heading.bullet]
  simp [heading]

end Section

namespace Heading

open Section

variable (filename : Text) (limit : Int) (headings : List Heading)

/-- From the forest of some headings those are listed that are not too deep, one section for each. -/
theorem map_flattenAll_nest {α : Type} {f : Section → α} {g : Heading → α}
    (h : ∀ x ∈ allOf (nest filename headings), f x = g x.heading) :
    (flattenAll limit (nest filename headings)).map f =
      (headings.filter (·.level ≤ limit)).map g := by
  have hsections : (allOf (nest filename headings)).map heading = headings := by
    rw [map_heading_allOf, headingsOfAll_nest]
  have hfilter : headings.filter (·.level ≤ limit) =
      ((allOf (nest filename headings)).filter (·.level ≤ limit)).map heading := by
    rw [← hsections, List.filter_map, hsections]
    rfl
  rw [(nested_nest filename headings).flattenAll_eq, hfilter, List.map_map]
  exact List.map_congr_left fun x hx => h x (List.mem_filter.mp hx).1

end Heading

namespace Render

theorem sectionToc_eq_nil {sections : List Section} {depth : Int} :
    sectionToc sections depth = [] ↔ sections = [] := by
  cases sections with
  | nil => simp [sectionToc]
  | cons x rest => simp [sectionToc, ofLines, tocRule, List.intercalate_cons_cons]

end Render

namespace Load

theorem titled_snd (default : Text) (text : Text) :
    (titled default (Markdown.Page.titles (Markdown.Page.ofText text))).2 = text.listed := by
  rw [Text.listed, Text.headings]
  cases Markdown.Page.titles (Markdown.Page.ofText text) with
  | nil => rfl
  | cons t rest =>
    have hlevel : (t.level : Int) = 1 ↔ t.level = 1 := by omega
    simp only [titled, List.map_cons, hlevel]
    split <;> rfl

/-- The sections of a document are those of the headings that are listed. -/
theorem sections_ofText (s : Settings) (filename text : Text) :
    (ofText s filename text).sections = Heading.nest filename text.listed :=
  congrArg (Heading.nest filename) (titled_snd (s.stem (Path.baseName filename)) text)

theorem listed_level {text : Text} {h : Heading} (hmem : h ∈ text.listed) :
    1 ≤ h.level ∧ h.level ≤ 6 := by
  have hheading : h ∈ text.headings := by
    unfold Text.listed at hmem
    split at hmem
    · cases hmem
    · rename_i first rest heq
      rw [heq]
      split at hmem
      · exact List.mem_cons_of_mem first hmem
      · exact hmem
  obtain ⟨t, ht, rfl⟩ := List.mem_map.mp hheading
  have hlevel := Markdown.Page.title_level ht
  dsimp only
  omega

/-- A table of contents lists the headings of its document down to a level. They are those of the text
without a first one of the first level, and their sections are never refused. What is left of the
sections down to a level are the headings that are not deeper, in order, each with the anchor of its
title. The table is empty exactly if there is no heading to list, at any level. Otherwise it has a
line for each heading that is not too deep, between a rule with a caption and another rule. -/
theorem sectionToc_ofText (s : Settings) (filename text : Text) (limit : Int) :
    let sections := (ofText s filename text).sections
    let shown := text.listed.filter (·.level ≤ limit)
    Heading.sections filename text.listed = .ok sections ∧
      (Section.flattenAll limit sections).map (fun x => (x.heading, x.anchor, x.filename)) =
        shown.map (fun h => (h, Heading.anchor h.title, filename)) ∧
      (Render.sectionToc sections limit = [] ↔ text.listed = []) ∧
      Render.sectionToc sections limit =
        if text.listed = [] then []
        else Render.ofLines (["---".toList, "Table of Contents".toList, []] ++
          shown.map Heading.bullet ++ ["---".toList]) := by
  have hlabelled := Heading.labelled_nest filename text.listed
  have hempty : Render.sectionToc (Heading.nest filename text.listed) limit = [] ↔ text.listed = [] := by
    rw [Render.sectionToc_eq_nil, Heading.nest_eq_nil]
  simp only [sections_ofText]
  refine ⟨Heading.sections_eq_ok.mpr ⟨fun h hmem => listed_level hmem, rfl⟩, ?_, hempty, ?_⟩
  · apply Heading.map_flattenAll_nest
    intro x hx
    rw [(hlabelled x hx).1, (hlabelled x hx).2]
    rfl
  · have hlines := Heading.map_flattenAll_nest filename limit text.listed
      (f := Render.tocLine) (g := Heading.bullet) fun x hx => hlabelled.tocLine hx
    by_cases hnone : text.listed = []
    · rw [if_pos hnone]
      exact hempty.mpr hnone
    · have hsections : Heading.nest filename text.listed ≠ [] := by
        rw [Ne, Heading.nest_eq_nil]
        exact hnone
      rw [if_neg hnone, Render.sectionToc, hlines, if_neg (by simpa using hsections)]
      rfl

end Load

end DocTree
