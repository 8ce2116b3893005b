import DocTree.Proofs.Outcome
import DocTree.Render

/-!
# Links in their places

A navigation is a table of three cells, a listing a row for each entry. Each cell and each row holds
the link to what it is for, and a cell is empty only where there is nothing to link to.
-/
namespace DocTree

def Nav.targets (n : Nav) : List Entry :=
  n.previous.toList ++ n.up.toList ++ n.next.toList

theorem Nav.mem_targets {n : Nav} {o : Entry} :
    o ∈ n.targets ↔ n.previous = some o ∨ n.up = some o ∨ n.next = some o := by
  simp [targets]

namespace Render

variable {s : Settings} {filename : Text}

/-- The table of three cells; nothing if they are all empty. -/
def table (previous up next : Text) : Text :=
  if previous.isEmpty && up.isEmpty && next.isEmpty then []
  else
    ofLines [row (cellTitle "← Previous" previous) (cellTitle "↑ Up" up) (cellTitle "Next →" next),
      "|:--|:-:|--:|".toList, row previous up next]

/-- The list of some links; nothing if there are none. -/
def listing (links : List Text) : Text :=
  if links.isEmpty then []
  else
    ofLines ([tocRule, "In this directory".toList, []] ++ links.map ("- ".toList ++ ·) ++ [tocRule])

/-- A link is to something with a path, which it shows behind the title. -/
theorem entryLink_eq_ok {o : Entry} {text : Text} : entryLink s filename o = .ok text ↔
    ∃ path, target s filename o = .ok path ∧ link o.title path = text :=
  map_eq_ok

theorem link_ne_nil (title target : Text) : link title target ≠ [] :=
  List.cons_ne_nil _ _

/-- A cell is empty exactly if there is nothing to link to. -/
theorem cell_eq_nil_iff {o : Option Entry} {text : Text} (h : cell s filename o = .ok text) :
    text = [] ↔ o = none := by
  cases o with
  | none =>
    cases h
    simp
  | some e =>
    obtain ⟨path, -, rfl⟩ := entryLink_eq_ok.mp h
    simp [link_ne_nil]

/-- A navigation is the table of the links to the neighbours. -/
theorem nav_eq_ok {n : Nav} {text : Text} : nav s filename n = .ok text ↔
    ∃ previous up next, cell s filename n.previous = .ok previous ∧
      cell s filename n.up = .ok up ∧ cell s filename n.next = .ok next ∧
      table previous up next = text := by
  obtain ⟨previous?, next?, up?⟩ := n
  by_cases hempty : (Nav.mk previous? next? up?).isEmpty
  · have hnone : (previous? = none ∧ next? = none) ∧ up? = none := by
      simpa [Nav.isEmpty] using hempty
    obtain ⟨⟨rfl, rfl⟩, rfl⟩ := hnone
    constructor
    · rintro h
      cases h
      exact ⟨[], [], [], rfl, rfl, rfl, rfl⟩
    · rintro ⟨_, _, _, hprevious, hup, hnext, rfl⟩
      cases hprevious
      cases hup
      cases hnext
      rfl
  · -- With somewhere to go there is a cell that is not empty, so the table is not empty either.
    have hsome : ∀ {previous up next : Text}, cell s filename previous? = .ok previous →
        cell s filename up? = .ok up → cell s filename next? = .ok next →
        ¬ (previous.isEmpty && up.isEmpty && next.isEmpty) := by
      intro previous up next hprevious hup hnext hall
      have hall : (previous = [] ∧ up = []) ∧ next = [] := by simpa using hall
      obtain ⟨⟨hp, hu⟩, hn⟩ := hall
      apply hempty
      simp [Nav.isEmpty, (cell_eq_nil_iff hprevious).mp hp, (cell_eq_nil_iff hup).mp hu,
        (cell_eq_nil_iff hnext).mp hn]
    rw [nav, if_neg hempty]
    simp only [bind_eq_ok, pure_eq_ok]
    constructor
    · rintro ⟨previous, hprevious, up, hup, next, hnext, rfl⟩
      exact ⟨previous, up, next, hprevious, hup, hnext, if_neg (hsome hprevious hup hnext)⟩
    · rintro ⟨previous, up, next, hprevious, hup, hnext, rfl⟩
      exact ⟨previous, hprevious, up, hup, next, hnext,
        (if_neg (hsome hprevious hup hnext)).symm⟩

/-- The list of a directory's entries is that of the links to them. -/
theorem fileToc_eq_ok {entries : List Entry} {text : Text} : fileToc s filename entries = .ok text ↔
    ∃ links, entries.mapM (entryLink s filename) = .ok links ∧ listing links = text := by
  cases entries with
  | nil =>
    constructor
    · rintro h
      cases h
      exact ⟨[], rfl, rfl⟩
    · rintro ⟨links, hlinks, rfl⟩
      cases hlinks
      rfl
  | cons e rest =>
    have hlisting : ∀ {links : List Text}, (e :: rest).mapM (entryLink s filename) = .ok links →
        listing links = ofLines ([tocRule, "In this directory".toList, []] ++
          links.map ("- ".toList ++ ·) ++ [tocRule]) := by
      intro links hlinks
      cases forall₂_of_mapM hlinks
      rfl
    rw [fileToc, if_neg (by simp)]
    simp only [bind_eq_ok, pure_eq_ok]
    constructor
    · rintro ⟨links, hlinks, rfl⟩
      exact ⟨links, hlinks, hlisting hlinks⟩
    · rintro ⟨links, hlinks, rfl⟩
      exact ⟨links, hlinks, (hlisting hlinks).symm⟩

end Render

end DocTree
