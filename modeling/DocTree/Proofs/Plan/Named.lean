import DocTree.Proofs.FileSystem.Landing
import DocTree.Proofs.Plan.Documents
import DocTree.Proofs.Render.Cells

/-!
# Plans of trees in which everything has a name

A link needs the name of what it leads to, and nothing else can go wrong when a plan is made. All
that is loaded has a name, so there is a plan of every loaded tree.
-/
namespace DocTree

mutual

def Entry.Named : Entry → Prop
  | .document d => d.filename ≠ []
  | .directory filename _ entries root =>
    filename ≠ [] ∧ Entry.NamedAll entries ∧ ∀ d ∈ root, d.filename ≠ []

def Entry.NamedAll : List Entry → Prop
  | [] => True
  | e :: rest => e.Named ∧ Entry.NamedAll rest

end

namespace Entry

theorem namedAll_iff {entries : List Entry} : NamedAll entries ↔ ∀ e ∈ entries, e.Named := by
  induction entries with
  | nil => simp [NamedAll]
  | cons e rest ih => simp [NamedAll, ih]

theorem Named.filename_ne {e : Entry} (h : e.Named) : e.filename ≠ [] := by
  cases e with
  | document d => exact h
  | directory filename title entries root => exact h.1

end Entry

namespace Load

variable {s : Settings} {fs : FileSystem} {path : Text}

theorem document_named {d : Document} (h : (document s fs path).outcome = .ok d)
    (hpath : path ≠ []) : d.filename ≠ [] := by
  rwa [(document_eq_ok h).1]

theorem file_named {e : Entry} (h : (file s fs path).outcome = .ok e) (hpath : path ≠ []) :
    e.Named := by
  obtain ⟨d, rfl, rfl, -⟩ := file_eq_ok h
  exact hpath

theorem directoryWithin_named {room : Nat} {e : Entry} (hpath : path ≠ [])
    (he : (directoryWithin s fs room path).outcome = .ok e) : e.Named := by
  induction room generalizing path e with
  | zero => cases he
  | succ room ih =>
    obtain ⟨names, root, loaded, -, hroot, hloaded, rfl⟩ := directoryWithin_eq_ok.mp he
    refine ⟨hpath, Entry.namedAll_iff.mpr ?_, ?_⟩
    · intro e he
      obtain ⟨name, -, he⟩ := exists_of_mem_mapM hloaded e (List.mem_filter.mp he).1
      obtain ⟨n, -, ⟨-, he⟩ | ⟨-, he⟩⟩ := entry_eq_ok he
      · exact ih (Path.join_ne_nil hpath name) he
      · exact file_named he (Path.join_ne_nil hpath name)
    · rintro d hd
      cases hd
      exact document_named (document_of_rootDocument hroot).2
        (Path.join_ne_nil hpath s.rootDocument)

end Load

/-- Everything in a loaded tree has a name. -/
theorem load_named {s : Settings} {fs : FileSystem} {path : Text} {e : Entry}
    (he : (load s fs path).outcome = .ok e) : e.Named := by
  rw [outcome_load] at he
  obtain ⟨n, hn, he⟩ := bind_eq_ok.mp he
  have hpath := FileSystem.ne_nil_of_find hn
  split at he
  · exact Load.directoryWithin_named hpath he
  · obtain ⟨d, hd, he⟩ := bind_eq_ok.mp he
    cases he
    exact Load.document_named hd hpath

def Nav.Named (n : Nav) : Prop :=
  (∀ e ∈ n.previous, e.Named) ∧ (∀ e ∈ n.next, e.Named) ∧ ∀ e ∈ n.up, e.Named

section

variable (s : Settings) (filename : Text)

theorem exists_entryLink {o : Entry} (h : o.Named) :
    ∃ link, Render.entryLink s filename o = .ok link := by
  simp [Render.entryLink, Render.target, h.filename_ne, Except.map]

theorem exists_cell {o : Option Entry} (h : ∀ e ∈ o, e.Named) :
    ∃ content, Render.cell s filename o = .ok content := by
  cases o with
  | none => exact ⟨[], rfl⟩
  | some e => exact exists_entryLink s filename (h e rfl)

theorem exists_nav {n : Nav} (h : n.Named) : ∃ nav, Render.nav s filename n = .ok nav := by
  obtain ⟨hprevious, hnext, hup⟩ := h
  obtain ⟨previous, hprevious⟩ := exists_cell s filename hprevious
  obtain ⟨up, hup⟩ := exists_cell s filename hup
  obtain ⟨next, hnext⟩ := exists_cell s filename hnext
  exact ⟨_, Render.nav_eq_ok.mpr ⟨previous, up, next, hprevious, hup, hnext, rfl⟩⟩

theorem exists_fileToc {entries : List Entry} (h : Entry.NamedAll entries) :
    ∃ toc, Render.fileToc s filename entries = .ok toc := by
  obtain ⟨links, hlinks⟩ := exists_mapM fun e he =>
    exists_entryLink s filename (Entry.namedAll_iff.mp h e he)
  exact ⟨_, Render.fileToc_eq_ok.mpr ⟨links, hlinks, rfl⟩⟩

end

def Seat.Named (x : Seat) : Prop :=
  x.nav.Named ∧ ∀ entries ∈ x.entries?, Entry.NamedAll entries

mutual

/-- All that is led to in a tree has a name if everything in it and around it does. -/
theorem Entry.Named.seats {e : Entry} {n : Nav} (he : e.Named) (hn : n.Named) :
    ∀ x ∈ e.seats n, x.Named := by
  cases e with
  | document d =>
    intro x hx
    cases List.mem_singleton.mp hx
    exact ⟨hn, by simp⟩
  | directory filename title entries root =>
    obtain ⟨-, hentries, hroot⟩ := he
    intro x hx
    rw [Entry.seats] at hx
    rcases List.mem_append.mp hx with hx | hx
    · exact NamedAll.seatsOf hentries (by simp) (by simpa [Entry.Named] using hroot) x hx
    · obtain ⟨d, -, rfl⟩ := List.mem_map.mp hx
      exact ⟨hn, by simpa [Seat.ofRoot] using hentries⟩

theorem Entry.NamedAll.seatsOf {up previous : Option Entry} {entries : List Entry}
    (hentries : Entry.NamedAll entries) (hprevious : ∀ e ∈ previous, e.Named)
    (hup : ∀ e ∈ up, e.Named) : ∀ x ∈ Entry.seatsOf up previous entries, x.Named := by
  cases entries with
  | nil => simp [Entry.seatsOf]
  | cons e rest =>
    obtain ⟨he, hrest⟩ := hentries
    have hnext : ∀ e ∈ rest.head?, e.Named := fun e he =>
      Entry.namedAll_iff.mp hrest e (List.mem_of_head? he)
    intro x hx
    rw [Entry.seatsOf] at hx
    rcases List.mem_append.mp hx with hx | hx
    · exact Named.seats he ⟨hprevious, hnext, hup⟩ x hx
    · exact NamedAll.seatsOf hrest (by simpa using he) hup x hx

end

/-- A document is edited if everything has a name that its blocks lead to. -/
theorem Seat.Named.exists_edit (s : Settings) {x : Seat} (h : x.Named) :
    ∃ f, x.edit s = .ok f := by
  obtain ⟨d, n, entries?⟩ := x
  obtain ⟨nav, hnav⟩ := exists_nav s d.filename h.1
  cases entries? with
  | none => exact ⟨_, by rw [Seat.edit, Plan.ofDocument, hnav]; rfl⟩
  | some entries =>
    obtain ⟨toc, htoc⟩ := exists_fileToc s d.filename (h.2 entries rfl)
    exact ⟨_, by simp only [Seat.edit, Plan.ofRoot, htoc, hnav]; rfl⟩

/-- There is a plan of every tree in which everything has a name. -/
theorem Plan.exists_ofEntry (s : Settings) {e : Entry} {n : Nav} (he : e.Named) (hn : n.Named) :
    ∃ edits, ofEntry s e n = .ok edits := by
  rw [ofEntry_eq]
  exact exists_mapM fun x hx => (he.seats hn x hx).exists_edit s

/-- What is loaded is planned. -/
theorem exists_plan {s : Settings} {fs : FileSystem} {path : Text} {tree : Entry}
    (h : (load s fs path).outcome = .ok tree) :
    ∃ edits, Plan.ofEntry { s with workingDirectory := fs.workingDirectory } tree {} = .ok edits ∧
      plan s fs path = .ok edits := by
  obtain ⟨edits, hedits⟩ := Plan.exists_ofEntry { s with workingDirectory := fs.workingDirectory }
    (load_named h) (n := {}) ⟨by simp, by simp, by simp⟩
  exact ⟨edits, hedits, plan_eq_ok.mpr ⟨tree, h, hedits⟩⟩

end DocTree
