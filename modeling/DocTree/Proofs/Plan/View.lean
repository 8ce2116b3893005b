import DocTree.Proofs.Load.View
import DocTree.Proofs.Plan.Place
import DocTree.Run

/-!
# What a plan depends on

A plan depends on a tree only through what is seen of it. The skeleton decides whether there is a
plan and which files it edits; the outline decides what is written into their blocks.
-/
namespace DocTree

namespace View

variable {v : View}

def nav (v : View) (n : Nav) : Nav :=
  { previous := n.previous.map v.entry, next := n.next.map v.entry, up := n.up.map v.entry }

theorem isEmpty_nav (v : View) (n : Nav) : (v.nav n).isEmpty = n.isEmpty := by
  simp only [Nav.isEmpty, nav, Option.isNone_map]

/-- A projection of edits depends on what is seen only, for a document and for a directory's own. -/
structure Decides (v : View) (s : Settings) {γ : Type} (r : FileEdit → γ) : Prop where
  document : ∀ d n, (Plan.ofDocument s (v.document d) (v.nav n)).map r =
    (Plan.ofDocument s d n).map r
  root : ∀ root entries n,
    (Plan.ofRoot s (v.document root) (entries.map v.entry) (v.nav n)).map r =
      (Plan.ofRoot s root entries n).map r

variable {s : Settings} {γ : Type} {r : FileEdit → γ}

mutual

/-- What is seen of a tree decides the plan, as far as it decides the edits of a document. -/
theorem Decides.ofEntry (h : v.Decides s r) (e : Entry) (n : Nav) :
    (Plan.ofEntry s (v.entry e) (v.nav n)).map (List.map r) =
      (Plan.ofEntry s e n).map (List.map r) := by
  cases e with
  | document d =>
    rw [entry, Plan.ofEntry, Plan.ofEntry]
    refine map_bind_congr (h.document d n) fun f f' hf => ?_
    exact congrArg (fun shown => Except.ok [shown]) hf
  | directory filename title inside root =>
    have hup : (root.map v.document).map Entry.document =
        (root.map Entry.document).map v.entry := by
      cases root <;> rfl
    rw [entry, Plan.ofEntry, Plan.ofEntry, hup]
    refine map_bind_congr (h.ofEntries _ none inside) fun inner inner' hinner => ?_
    cases root with
    | none => exact congrArg Except.ok hinner
    | some root =>
      simp only [Option.map_some, entries_eq_map]
      refine map_bind_congr (h.root root inside n) fun f f' hf => ?_
      simp [pure, Except.pure, Except.map, hinner, hf]

theorem Decides.ofEntries (h : v.Decides s r) (up previous : Option Entry)
    (inside : List Entry) :
    (Plan.ofEntries s (up.map v.entry) (previous.map v.entry) (v.entries inside)).map
        (List.map r) =
      (Plan.ofEntries s up previous inside).map (List.map r) := by
  cases inside with
  | nil => rfl
  | cons e rest =>
    have hnav : v.nav { previous, next := rest.head?, up } =
        { previous := previous.map v.entry, next := (v.entries rest).head?,
          up := up.map v.entry } := by
      simp [nav, entries_eq_map]
    rw [entries, Plan.ofEntries, Plan.ofEntries, ← hnav]
    refine map_bind_congr (h.ofEntry e _) fun first first' hfirst => ?_
    refine map_bind_congr (h.ofEntries up (some e) rest) fun more more' hmore => ?_
    simp [pure, Except.pure, Except.map, hfirst, hmore]

end

/-- Trees that look the same have the same plan, as far as what is seen decides it. -/
theorem Decides.plan_eq (h : v.Decides s r) {e e' : Entry} (heq : v.entry e' = v.entry e)
    (n : Nav) : (Plan.ofEntry s e' n).map (List.map r) = (Plan.ofEntry s e n).map (List.map r) := by
  rw [← h.ofEntry e', heq, h.ofEntry]

end View

namespace Render

variable {s : Settings} {filename : Text}

/-- There is a link to an entry if there is one to its skeleton. -/
theorem entryLink_skeleton (o : Entry) :
    (entryLink s filename (View.skeleton.entry o)).map (fun _ => ()) =
      (entryLink s filename o).map (fun _ => ()) := by
  simp only [entryLink, target, View.filename_entry]
  split <;> rfl

theorem cell_skeleton (o : Option Entry) :
    (cell s filename (o.map View.skeleton.entry)).map (fun _ => ()) =
      (cell s filename o).map (fun _ => ()) := by
  cases o with
  | none => rfl
  | some o => exact entryLink_skeleton o

theorem nav_skeleton (n : Nav) :
    (nav s filename (View.skeleton.nav n)).map (fun _ => ()) =
      (nav s filename n).map (fun _ => ()) := by
  simp only [nav, View.isEmpty_nav]
  split
  · rfl
  · refine map_bind_congr (cell_skeleton n.previous) fun _ _ _ => ?_
    refine map_bind_congr (cell_skeleton n.up) fun _ _ _ => ?_
    refine map_bind_congr (cell_skeleton n.next) fun _ _ _ => ?_
    rfl

theorem fileToc_skeleton (entries : List Entry) :
    (fileToc s filename (entries.map View.skeleton.entry)).map (fun _ => ()) =
      (fileToc s filename entries).map (fun _ => ()) := by
  have hlinks :
      ((entries.map View.skeleton.entry).mapM (entryLink s filename)).map (List.map fun _ => ()) =
        (entries.mapM (entryLink s filename)).map (List.map fun _ => ()) := by
    rw [List.mapM_map]
    exact map_mapM_congr fun o _ => entryLink_skeleton o
  simp only [fileToc, List.isEmpty_map]
  split
  · rfl
  · exact map_bind_congr hlinks fun _ _ _ => rfl

end Render

/-- The skeleton decides whether a document is edited, and under which name. -/
theorem View.skeleton_decides (s : Settings) : View.skeleton.Decides s FileEdit.filename where
  document _ n := map_bind_congr (Render.nav_skeleton n) fun _ _ _ => rfl
  root _ entries n :=
    map_bind_congr (Render.fileToc_skeleton entries) fun _ _ _ =>
      map_bind_congr (Render.nav_skeleton n) fun _ _ _ => rfl

/-- A file and what is written into it, wherever it goes. -/
def FileEdit.contents (f : FileEdit) : Text × List Text :=
  (f.filename, f.edits.map Edit.content)

namespace Render

variable {s : Settings} {filename : Text}

theorem entryLink_outline (o : Entry) :
    entryLink s filename (View.outline.entry o) = entryLink s filename o := by
  have htitle : (View.outline.entry o).title = o.title := by
    cases o <;> rfl
  simp only [entryLink, target, View.filename_entry, htitle]

theorem cell_outline (o : Option Entry) :
    cell s filename (o.map View.outline.entry) = cell s filename o := by
  cases o with
  | none => rfl
  | some o => exact entryLink_outline o

theorem nav_outline (n : Nav) : nav s filename (View.outline.nav n) = nav s filename n := by
  simp only [nav, View.isEmpty_nav]
  simp only [View.nav, cell_outline]

theorem fileToc_outline (entries : List Entry) :
    fileToc s filename (entries.map View.outline.entry) = fileToc s filename entries := by
  simp only [fileToc, List.isEmpty_map, List.mapM_map, Function.comp_def, entryLink_outline]

end Render

/-- The outline decides what is written into the file of a document. -/
theorem View.outline_decides (s : Settings) : View.outline.Decides s FileEdit.contents where
  document d n := by
    simp only [Plan.ofDocument, View.filename_document, Render.nav_outline]
    exact map_bind_congr_right fun _ => rfl
  root root entries n := by
    simp only [Plan.ofRoot, View.filename_document, Render.fileToc_outline, Render.nav_outline]
    exact map_bind_congr_right fun _ => map_bind_congr_right fun _ => rfl

end DocTree
