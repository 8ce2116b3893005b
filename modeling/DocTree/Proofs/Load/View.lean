import DocTree.Proofs.FileSystem.Kind
import DocTree.Proofs.Load.Documents

/-!
# What a loaded tree shows

Seen through a view of its documents a loaded tree is the same for file systems that agree in all
but what texts say, as long as the view shows the same of every document in it.
-/
namespace DocTree

/-- What is seen of a document, and of the title of a directory. -/
structure View where
  document : Document → Document
  title : Text → Text
  filename_document : ∀ d, (document d).filename = d.filename
  title_document : ∀ {d d'}, document d = document d' → title d.title = title d'.title

namespace View

def skeleton : View where
  document d := { filename := d.filename, title := [] }
  title _ := []
  filename_document _ := rfl
  title_document _ := rfl

def outline : View where
  document d := { filename := d.filename, title := d.title, sections := d.sections }
  title t := t
  filename_document _ := rfl
  title_document h := by
    have := congrArg Document.title h
    exact this

mutual

def entry (v : View) : Entry → Entry
  | .document d => .document (v.document d)
  | .directory filename title inside root =>
    .directory filename (v.title title) (entries v inside) (root.map v.document)

def entries (v : View) : List Entry → List Entry
  | [] => []
  | e :: rest => v.entry e :: entries v rest

end

variable {v : View}

theorem entries_eq_map (v : View) (inside : List Entry) :
    v.entries inside = inside.map v.entry := by
  induction inside with
  | nil => rfl
  | cons e rest ih => rw [entries, ih, List.map_cons]

@[simp] theorem filename_entry (v : View) (e : Entry) : (v.entry e).filename = e.filename := by
  cases e with
  | document d => exact v.filename_document d
  | directory filename title inside root => rfl

/-- What is seen of a title that a directory has from its own document, or else for itself. -/
theorem title_getD {root root' : Option Document} (h : root'.map v.document = root.map v.document)
    (default : Text) :
    v.title ((root'.map Document.title).getD default) =
      v.title ((root.map Document.title).getD default) := by
  cases root with
  | none =>
    rw [Option.map_none, Option.map_eq_none_iff] at h
    rw [h]
  | some d =>
    obtain ⟨d', rfl, hd⟩ := Option.map_eq_some_iff.mp h
    exact v.title_document hd

theorem isListed_entry (s : Settings) (v : View) (e : Entry) :
    Listing.isListed s (v.entry e) = Listing.isListed s e := by
  cases e with
  | document d => simp only [entry, Listing.isListed, v.filename_document]
  | directory filename title inside root =>
    simp only [entry, Listing.isListed, entries_eq_map, Option.isSome_map, List.isEmpty_map]

theorem map_filter_isListed (s : Settings) (v : View) (loaded : List Entry) :
    (loaded.filter (Listing.isListed s)).map v.entry =
      (loaded.map v.entry).filter (Listing.isListed s) := by
  rw [List.filter_map]
  congr 1
  refine List.filter_congr fun e _ => ?_
  exact (isListed_entry s v e).symm

end View

/-- In a file system a view shows of a document what it showed before. -/
def Document.SameIn (v : View) (s : Settings) (fs : FileSystem) (d : Document) : Prop :=
  ∀ text, fs.readText d.filename = .ok text →
    v.document (Load.ofText s d.filename text) = v.document d

theorem Entry.isListed_of_mem_documents {s : Settings} {filename title : Text}
    {entries : List Entry} {root : Option Document} {d : Document}
    (h : d ∈ (Entry.directory filename title entries root).documents) :
    Listing.isListed s (.directory filename title entries root) := by
  cases root with
  | some root => rfl
  | none =>
    cases entries with
    | cons e rest => rfl
    | nil => cases h

namespace Load

/-- Texts with the same headings have the same outline. -/
theorem outline_ofText {text text' : Text} (h : text'.headings = text.headings) (s : Settings)
    (filename : Text) :
    View.outline.document (ofText s filename text') =
      View.outline.document (ofText s filename text) := by
  simp only [View.outline, ofText, titled_congr _ h]

variable {s : Settings} {fs fs' : FileSystem} {v : View}

theorem document_seen (h : fs.Alike fs') {filename : Text} {d : Document}
    (hd : (document s fs filename).outcome = .ok d) (hsame : d.SameIn v s fs') :
    ∃ d', (document s fs' filename).outcome = .ok d' ∧ v.document d' = v.document d := by
  rw [outcome_document] at hd
  obtain ⟨text, htext, rfl⟩ := map_eq_ok.mp hd
  obtain ⟨text', htext', -⟩ := exists_ok_of_map_eq (h.readText filename) htext
  refine ⟨ofText s filename text', ?_, hsame text' htext'⟩
  rw [outcome_document, htext']
  rfl

theorem file_seen (h : fs.Alike fs') {path : Text} {e : Entry}
    (he : (file s fs path).outcome = .ok e)
    (hsame : Listing.isListed s e → ∀ d ∈ e.documents, d.SameIn v s fs') :
    ∃ e', (file s fs' path).outcome = .ok e' ∧ v.entry e' = v.entry e := by
  rw [outcome_file] at he ⊢
  split at he
  · rename_i hmarkdown
    obtain ⟨d, hd, he⟩ := bind_eq_ok.mp he
    cases he
    have hlisted : Listing.isListed s (.document d) := by
      rw [Listing.isListed, (document_eq_ok hd).1]
      exact hmarkdown
    obtain ⟨d', hd', hseen⟩ := document_seen h hd (hsame hlisted d (by simp [Entry.documents]))
    refine ⟨.document d', ?_, congrArg Entry.document hseen⟩
    rw [hd', if_pos hmarkdown]
    rfl
  · rename_i hmarkdown
    cases he
    exact ⟨_, by rw [if_neg hmarkdown], rfl⟩

theorem rootDocument_seen (h : fs.Alike fs') {path : Text} {root : Option Document}
    (hroot : (rootDocument s fs path).outcome = .ok root) (hsame : ∀ d ∈ root, d.SameIn v s fs') :
    ∃ root', (rootDocument s fs' path).outcome = .ok root' ∧
      root'.map v.document = root.map v.document := by
  rw [outcome_rootDocument] at hroot ⊢
  obtain ⟨found, hfound, hroot⟩ := bind_eq_ok.mp hroot
  rw [h.exists?, hfound]
  cases found with
  | false =>
    cases hroot
    exact ⟨none, rfl, rfl⟩
  | true =>
    obtain ⟨d, hd, hroot⟩ := bind_eq_ok.mp hroot
    cases hroot
    obtain ⟨d', hd', hseen⟩ := document_seen h hd (hsame d rfl)
    exact ⟨some d', bind_eq_ok.mpr ⟨true, rfl, bind_eq_ok.mpr ⟨d', hd', rfl⟩⟩,
      congrArg some hseen⟩

/-- What a path leads to is read as a directory or not in both file systems. -/
theorem seen_of_find (h : fs.Alike fs') {path : Text}
    {inside inside' other other' : Except Fault Entry} {e : Entry}
    (he : (fs.find path >>= fun n => if n.isDirectory then inside else other) = .ok e)
    (hinside : inside = .ok e → ∃ e', inside' = .ok e' ∧ v.entry e' = v.entry e)
    (hother : other = .ok e → ∃ e', other' = .ok e' ∧ v.entry e' = v.entry e) :
    ∃ e', (fs'.find path >>= fun n => if n.isDirectory then inside' else other') = .ok e' ∧
      v.entry e' = v.entry e := by
  obtain ⟨n, hn, he⟩ := bind_eq_ok.mp he
  obtain ⟨n', hn', hkind⟩ := exists_ok_of_map_eq (h.find path) hn
  rw [← Node.isDirectory_of_kind_eq hkind] at he
  by_cases hdir : n'.isDirectory
  · rw [if_pos hdir] at he
    obtain ⟨e', he', hseen⟩ := hinside he
    exact ⟨e', bind_eq_ok.mpr ⟨n', hn', by rw [if_pos hdir, he']⟩, hseen⟩
  · rw [if_neg hdir] at he
    obtain ⟨e', he', hseen⟩ := hother he
    exact ⟨e', bind_eq_ok.mpr ⟨n', hn', by rw [if_neg hdir, he']⟩, hseen⟩

theorem entry_seen (h : fs.Alike fs') {directory directory' : Text → Traced Entry} {path : Text}
    {e : Entry} (he : (entry s fs directory path).outcome = .ok e)
    (hsame : Listing.isListed s e → ∀ d ∈ e.documents, d.SameIn v s fs')
    (hdirectory : (directory path).outcome = .ok e →
      ∃ e', (directory' path).outcome = .ok e' ∧ v.entry e' = v.entry e) :
    ∃ e', (entry s fs' directory' path).outcome = .ok e' ∧ v.entry e' = v.entry e := by
  rw [outcome_entry] at he ⊢
  exact seen_of_find h he hdirectory fun he => file_seen h he hsame

theorem exists_of_directoryWithin {room : Nat} {path : Text} {e : Entry}
    (h : (directoryWithin s fs room path).outcome = .ok e) :
    ∃ title entries root, e = .directory path title entries root := by
  cases room with
  | zero => cases h
  | succ room =>
    obtain ⟨names, root, loaded, -, -, -, rfl⟩ := directoryWithin_eq_ok.mp h
    exact ⟨_, _, _, rfl⟩

theorem directoryWithin_seen (h : fs.Alike fs') {room : Nat} {path : Text} {e : Entry}
    (he : (directoryWithin s fs room path).outcome = .ok e)
    (hsame : ∀ d ∈ e.documents, d.SameIn v s fs') :
    ∃ e', (directoryWithin s fs' room path).outcome = .ok e' ∧ v.entry e' = v.entry e := by
  induction room generalizing path e with
  | zero => cases he
  | succ room ih =>
    obtain ⟨names, root, loaded, hnames, hroot, hloaded, rfl⟩ := directoryWithin_eq_ok.mp he
    rw [Entry.documents, Entry.documentsOf_eq_flatMap] at hsame
    have hlisted : ∀ e ∈ loaded, Listing.isListed s e → ∀ d ∈ e.documents, d.SameIn v s fs' :=
      fun e he hlist d hd => hsame d (List.mem_append_left _
        (List.mem_flatMap.mpr ⟨e, List.mem_filter.mpr ⟨he, hlist⟩, hd⟩))
    have hentries : ∀ name ∈ Listing.sort (Listing.visible s names),
        (entry s fs' (directoryWithin s fs' room) (Path.join path name)).outcome.map v.entry =
          (entry s fs (directoryWithin s fs room) (Path.join path name)).outcome.map v.entry := by
      intro name hname
      obtain ⟨e, he, hentry⟩ := exists_ok_of_mapM hloaded name hname
      obtain ⟨e', hentry', hseen⟩ := entry_seen h hentry (hlisted e he) fun hdirectory => by
        obtain ⟨title, entries, root, rfl⟩ := exists_of_directoryWithin hdirectory
        exact ih hdirectory fun d hd =>
          hlisted _ he (Entry.isListed_of_mem_documents hd) d hd
      rw [hentry, hentry']
      exact congrArg Except.ok hseen
    obtain ⟨root', hroot', hrootSeen⟩ := rootDocument_seen h hroot
      fun d hd => hsame d (List.mem_append_right _ (by simpa using hd))
    obtain ⟨loaded', hloaded', hloadedSeen⟩ :=
      exists_ok_of_map_eq (map_mapM_congr hentries) hloaded
    refine ⟨.directory path ((root'.map Document.title).getD (Path.baseName (Path.normal path)))
      (loaded'.filter (Listing.isListed s)) root', ?_, ?_⟩
    · rw [directoryWithin_eq_ok, h.names]
      exact ⟨names, root', loaded', hnames, hroot', hloaded', rfl⟩
    · simp only [View.entry, View.entries_eq_map, View.map_filter_isListed,
        View.title_getD hrootSeen, hrootSeen, hloadedSeen]

end Load

/-- A tree is loaded again, and what is seen of it is the same, if it is the same of every document
in it. -/
theorem load_seen {v : View} {s : Settings} {fs fs' : FileSystem} (h : fs.Alike fs') {path : Text}
    {e : Entry} (he : (load s fs path).outcome = .ok e)
    (hsame : ∀ d ∈ e.documents, d.SameIn v s fs') :
    ∃ e', (load s fs' path).outcome = .ok e' ∧ v.entry e' = v.entry e := by
  rw [outcome_load] at he ⊢
  refine Load.seen_of_find h he (fun he => Load.directoryWithin_seen h he hsame) fun he => ?_
  obtain ⟨d, hd, he⟩ := bind_eq_ok.mp he
  cases he
  obtain ⟨d', hd', hseen⟩ := Load.document_seen h hd (hsame d (by simp [Entry.documents]))
  exact ⟨.document d', bind_eq_ok.mpr ⟨d', hd', rfl⟩, congrArg Entry.document hseen⟩

end DocTree
