import DocTree.Load
import DocTree.Proofs.Outcome

/-!
# The documents of a loaded tree

What loading comes to, step by step, and that every document in a loaded tree is what the file
system holds under its name.
-/
namespace DocTree

mutual

def Entry.documents : Entry → List Document
  | .document d => [d]
  | .directory _ _ entries root => Entry.documentsOf entries ++ root.toList

def Entry.documentsOf : List Entry → List Document
  | [] => []
  | e :: rest => e.documents ++ Entry.documentsOf rest

end

theorem Entry.documentsOf_eq_flatMap (entries : List Entry) :
    documentsOf entries = entries.flatMap documents := by
  induction entries with
  | nil => rfl
  | cons e rest ih => rw [documentsOf, ih, List.flatMap_cons]

def Text.headings (text : Text) : List Heading :=
  (Markdown.Page.titles (Markdown.Page.ofText text)).map fun t => ⟨t.level, t.text⟩

/-- The document is what a file system holds under its name. -/
def Document.IsRead (s : Settings) (fs : FileSystem) (d : Document) : Prop :=
  ∃ text, fs.readText d.filename = .ok text ∧ d = Load.ofText s d.filename text

namespace Load

variable {s : Settings} {fs : FileSystem}

@[simp] theorem filename_ofText (s : Settings) (filename contents : Text) :
    (ofText s filename contents).filename = filename := rfl

/-- The title and the remaining headings depend on the levels and texts of headings only. -/
theorem titled_congr {titles titles' : List Markdown.Page.Title} (default : Text)
    (h : (titles'.map fun t => Heading.mk t.level t.text) =
      titles.map fun t => Heading.mk t.level t.text) :
    titled default titles' = titled default titles := by
  cases titles with
  | nil => rw [List.map_eq_nil_iff.mp h]
  | cons t rest =>
    obtain ⟨t', rest', rfl, ht, hrest⟩ := List.map_eq_cons_iff.mp h
    obtain ⟨hlevel, htext⟩ := Heading.mk.inj ht
    have hlevel : t'.level = t.level := by omega
    simp only [titled, hlevel, htext, List.map_cons, hrest]

theorem outcome_document (s : Settings) (fs : FileSystem) (filename : Text) :
    (document s fs filename).outcome = (fs.readText filename).map (ofText s filename) := by
  simp only [document, Traced.outcome_bind, Traced.outcome_lift, Traced.outcome_report]
  cases fs.readText filename <;> rfl

theorem document_eq_ok {filename : Text} {d : Document}
    (h : (document s fs filename).outcome = .ok d) : d.filename = filename ∧ d.IsRead s fs := by
  rw [outcome_document] at h
  obtain ⟨text, htext, rfl⟩ := map_eq_ok.mp h
  rw [filename_ofText]
  exact ⟨rfl, text, htext, rfl⟩

theorem outcome_rootDocument (s : Settings) (fs : FileSystem) (path : Text) :
    (rootDocument s fs path).outcome =
      fs.exists? (Path.join path s.rootDocument) >>= fun found =>
        if found then
          (document s fs (Path.join path s.rootDocument)).outcome >>= fun d => .ok (some d)
        else .ok none := by
  simp only [rootDocument, Traced.outcome_bind, Traced.outcome_lift]
  refine bind_congr fun found => ?_
  cases found with
  | false => rfl
  | true => exact Traced.outcome_bind _ _

def file (s : Settings) (fs : FileSystem) (path : Text) : Traced Entry := do
  if s.isMarkdown path then return .document (← document s fs path)
  else return .document (other path)

theorem outcome_file (s : Settings) (fs : FileSystem) (path : Text) :
    (file s fs path).outcome =
      if s.isMarkdown path then (document s fs path).outcome >>= fun d => .ok (.document d)
      else .ok (.document (other path)) := by
  unfold file
  split
  · exact Traced.outcome_bind _ _
  · rfl

theorem outcome_entry (s : Settings) (fs : FileSystem) (directory : Text → Traced Entry)
    (path : Text) :
    (entry s fs directory path).outcome =
      fs.find path >>= fun n =>
        if n.isDirectory then (directory path).outcome else (file s fs path).outcome := by
  simp only [entry, Traced.outcome_bind, Traced.outcome_lift]
  refine bind_congr fun n => ?_
  cases n <;> rfl

theorem outcome_directoryWithin (s : Settings) (fs : FileSystem) (room : Nat) (path : Text) :
    (directoryWithin s fs (room + 1) path).outcome =
      fs.names path >>= fun names =>
        (rootDocument s fs path).outcome >>= fun root =>
          ((Listing.sort (Listing.visible s names)).mapM fun name =>
              (entry s fs (directoryWithin s fs room) (Path.join path name)).outcome) >>=
            fun loaded => .ok (.directory path
              ((root.map Document.title).getD (Path.baseName (Path.normal path)))
              (loaded.filter (Listing.isListed s)) root) := by
  simp only [directoryWithin, Traced.outcome_bind, Traced.outcome_lift, Traced.outcome_report,
    Traced.outcome_mapM]
  rfl

/-- The document that represents a directory was read from its file. -/
theorem document_of_rootDocument {path : Text} {d : Document}
    (h : (rootDocument s fs path).outcome = .ok (some d)) :
    fs.exists? (Path.join path s.rootDocument) = .ok true ∧
      (document s fs (Path.join path s.rootDocument)).outcome = .ok d := by
  rw [outcome_rootDocument] at h
  obtain ⟨found, hfound, h⟩ := bind_eq_ok.mp h
  cases found with
  | false => cases h
  | true =>
    obtain ⟨d, hd, h⟩ := bind_eq_ok.mp h
    cases h
    exact ⟨hfound, hd⟩

/-- A directory without such a document holds no such file. -/
theorem exists?_of_rootDocument {path : Text}
    (h : (rootDocument s fs path).outcome = .ok none) :
    fs.exists? (Path.join path s.rootDocument) = .ok false := by
  rw [outcome_rootDocument] at h
  obtain ⟨found, hfound, h⟩ := bind_eq_ok.mp h
  cases found with
  | false => exact hfound
  | true =>
    obtain ⟨d, -, h⟩ := bind_eq_ok.mp h
    cases h

/-- An entry was read as a directory or as a file. -/
theorem entry_eq_ok {directory : Text → Traced Entry} {path : Text} {e : Entry}
    (h : (entry s fs directory path).outcome = .ok e) :
    ∃ n, fs.find path = .ok n ∧ (n.isDirectory ∧ (directory path).outcome = .ok e ∨
      ¬ n.isDirectory ∧ (file s fs path).outcome = .ok e) := by
  rw [outcome_entry] at h
  obtain ⟨n, hn, h⟩ := bind_eq_ok.mp h
  refine ⟨n, hn, ?_⟩
  split at h
  · rename_i hdir
    exact Or.inl ⟨hdir, h⟩
  · rename_i hdir
    exact Or.inr ⟨hdir, h⟩

/-- A directory was read with its own document and with an entry for each name that is looked at;
those with something to show are kept. -/
theorem directoryWithin_eq_ok {room : Nat} {path : Text} {e : Entry} :
    (directoryWithin s fs (room + 1) path).outcome = .ok e ↔
      ∃ names root loaded, fs.names path = .ok names ∧
        (rootDocument s fs path).outcome = .ok root ∧
        ((Listing.sort (Listing.visible s names)).mapM fun name =>
          (entry s fs (directoryWithin s fs room) (Path.join path name)).outcome) = .ok loaded ∧
        .directory path ((root.map Document.title).getD (Path.baseName (Path.normal path)))
          (loaded.filter (Listing.isListed s)) root = e := by
  simp only [outcome_directoryWithin, bind_eq_ok, Except.ok.injEq]
  constructor
  · rintro ⟨names, hnames, root, hroot, loaded, hloaded, he⟩
    exact ⟨names, root, loaded, hnames, hroot, hloaded, he⟩
  · rintro ⟨names, root, loaded, hnames, hroot, hloaded, he⟩
    exact ⟨names, hnames, root, hroot, loaded, hloaded, he⟩

/-- What is no directory is a document, read from its file if it is Markdown. -/
theorem file_eq_ok {path : Text} {e : Entry} (h : (file s fs path).outcome = .ok e) :
    ∃ d, e = .document d ∧ d.filename = path ∧
      (s.isMarkdown path ∧ d.IsRead s fs ∨ ¬ s.isMarkdown path ∧ d = other path) := by
  rw [outcome_file] at h
  split at h
  · rename_i hmarkdown
    obtain ⟨d, hd, h⟩ := bind_eq_ok.mp h
    cases h
    obtain ⟨hfilename, hread⟩ := document_eq_ok hd
    exact ⟨d, rfl, hfilename, Or.inl ⟨hmarkdown, hread⟩⟩
  · rename_i hmarkdown
    cases h
    exact ⟨other path, rfl, rfl, Or.inr ⟨hmarkdown, rfl⟩⟩

theorem file_documents {path : Text} {e : Entry} (h : (file s fs path).outcome = .ok e)
    (he : Listing.isListed s e) : ∀ d ∈ e.documents, d.IsRead s fs := by
  obtain ⟨d, rfl, -, ⟨-, hread⟩ | ⟨hmarkdown, rfl⟩⟩ := file_eq_ok h
  · simpa [Entry.documents] using hread
  · exact absurd he hmarkdown

theorem rootDocument_isRead {path : Text} {root : Option Document}
    (h : (rootDocument s fs path).outcome = .ok root) : ∀ d ∈ root, d.IsRead s fs := by
  rintro d hd
  cases hd
  exact (document_eq_ok (document_of_rootDocument h).2).2

/-- Every document in a loaded directory is read from its file. -/
theorem directoryWithin_documents {room : Nat} {path : Text} {e : Entry}
    (h : (directoryWithin s fs room path).outcome = .ok e) : ∀ d ∈ e.documents, d.IsRead s fs := by
  induction room generalizing path e with
  | zero => cases h
  | succ room ih =>
    obtain ⟨names, root, loaded, -, hroot, hloaded, rfl⟩ := directoryWithin_eq_ok.mp h
    intro d hd
    rw [Entry.documents, Entry.documentsOf_eq_flatMap] at hd
    rcases List.mem_append.mp hd with hd | hd
    · obtain ⟨e, he, hd⟩ := List.mem_flatMap.mp hd
      obtain ⟨he, hlisted⟩ := List.mem_filter.mp he
      obtain ⟨name, -, hentry⟩ := exists_of_mem_mapM hloaded e he
      obtain ⟨n, -, ⟨-, hentry⟩ | ⟨-, hentry⟩⟩ := entry_eq_ok hentry
      · exact ih hentry d hd
      · exact file_documents hentry hlisted d hd
    · exact rootDocument_isRead hroot d (by simpa using hd)

end Load

theorem outcome_load (s : Settings) (fs : FileSystem) (path : Text) :
    (load s fs path).outcome =
      fs.find path >>= fun n =>
        if n.isDirectory then (Load.directory s fs path).outcome
        else (Load.document s fs path).outcome >>= fun d => .ok (.document d) := by
  simp only [load, Traced.outcome_bind, Traced.outcome_lift]
  refine bind_congr fun n => ?_
  cases n with
  | directory entries => rfl
  | file bytes => exact Traced.outcome_bind _ _
  | link target => exact Traced.outcome_bind _ _

/-- Every document in a loaded tree is read from its file. -/
theorem load_documents {s : Settings} {fs : FileSystem} {path : Text} {e : Entry}
    (h : (load s fs path).outcome = .ok e) : ∀ d ∈ e.documents, d.IsRead s fs := by
  rw [outcome_load] at h
  obtain ⟨n, -, h⟩ := bind_eq_ok.mp h
  split at h
  · exact Load.directoryWithin_documents h
  · obtain ⟨d, hd, h⟩ := bind_eq_ok.mp h
    cases h
    simpa [Entry.documents] using (Load.document_eq_ok hd).2

end DocTree
