import DocTree.Proofs.FileSystem.Landing
import DocTree.Proofs.Load.Documents
import DocTree.Proofs.Load.Order

/-!
# Where the documents of a loaded tree stand

Without links the documents of a directory land below the directory, each below the entry it
belongs to, and the directory's own document beside the entries. So no two documents of a loaded
tree are one file.
-/
namespace DocTree

/-- The documents of a tree land at or below a place, no two of them at the same. -/
structure Entry.StandsBelow (fs : FileSystem) (place : List Text) (e : Entry) : Prop where
  below : ∀ d ∈ e.documents, place <+: fs.landing d.filename
  apart : e.documents.Pairwise fun d d' => fs.landing d.filename ≠ fs.landing d'.filename

namespace Load

variable {s : Settings} {fs : FileSystem} {path : Text}

theorem standsBelow_document (d : Document) :
    (Entry.document d).StandsBelow fs (fs.landing d.filename) :=
  ⟨by simp [Entry.documents], by simp [Entry.documents]⟩

theorem file_standsBelow {e : Entry} (h : (file s fs path).outcome = .ok e) :
    e.StandsBelow fs (fs.landing path) := by
  obtain ⟨d, rfl, rfl, -⟩ := file_eq_ok h
  exact standsBelow_document d

/-- A name that leads down from a directory lands right below it. -/
theorem landing_join_name {name : Text} (hpath : path ≠ []) (hname : name ≠ [])
    (hslash : '/' ∉ name) (hdot : name.head? ≠ some '.') :
    fs.landing (Path.join path name) = fs.landing path ++ [name] := by
  have hself : name ≠ ['.'] := by
    rintro rfl
    exact hdot rfl
  have hup : name ≠ ['.', '.'] := by
    rintro rfl
    exact hdot rfl
  rw [FileSystem.landing_join hpath hslash, if_neg hname, FileSystem.descend, if_neg hself,
    if_neg hup]

/-- A directory's own document stands right below it: names that lead elsewhere lead to
directories. -/
theorem rootDocument_landing (h : fs.root.isPlain) (hslash : '/' ∉ s.rootDocument)
    {names : List Text} (hnames : fs.names path = .ok names) {root : Option Document}
    (hroot : (rootDocument s fs path).outcome = .ok root) :
    ∀ d ∈ root, fs.landing d.filename = fs.landing path ++ [s.rootDocument] := by
  obtain ⟨hpath, -, -, n, hat, hdir⟩ := FileSystem.isDirectory_of_names h hnames
  intro d hd
  cases hd
  obtain ⟨hfilename, text, htext, -⟩ := document_eq_ok (document_of_rootDocument hroot).2
  obtain ⟨bytes, hfile⟩ := FileSystem.exists_at?_of_readText h htext
  rw [hfilename] at hfile ⊢
  rw [FileSystem.landing_join hpath hslash] at hfile ⊢
  have hnot : ∀ {place m}, Node.at? place fs.root = some (.file bytes) →
      Node.at? place fs.root = some m → ¬ m.isDirectory := by
    intro place m hfile hm
    rw [hfile] at hm
    cases hm
    simp [Node.isDirectory]
  by_cases hempty : s.rootDocument = []
  · rw [if_pos hempty] at hfile
    exact absurd hdir (hnot hfile hat)
  rw [if_neg hempty, FileSystem.descend] at hfile ⊢
  by_cases hdot : s.rootDocument = ['.']
  · rw [if_pos hdot] at hfile
    exact absurd hdir (hnot hfile hat)
  rw [if_neg hdot] at hfile ⊢
  by_cases hup : s.rootDocument = ['.', '.']
  · rw [if_pos hup] at hfile
    obtain ⟨m, hm, hmdir⟩ := Node.isDirectory_at?_dropLast hat hdir
    exact absurd hmdir (hnot hfile hm)
  · rw [if_neg hup]

/-- What stands below different names stands at different places. -/
theorem landing_ne {place p q : List Text} {a b : Text} (hab : a ≠ b) (hp : place ++ [a] <+: p)
    (hq : place ++ [b] <+: q) : p ≠ q := by
  rintro rfl
  have hlen : (place ++ [a]).length = (place ++ [b]).length := by simp
  have := List.prefix_of_prefix_length_le hp hq (Nat.le_of_eq hlen)
  have := this.eq_of_length hlen
  simp [hab] at this

/-- The documents of a loaded directory stand below it, at different places. -/
theorem directoryWithin_standsBelow (h : fs.root.isPlain) (hslash : '/' ∉ s.rootDocument)
    {room : Nat} {e : Entry} (he : (directoryWithin s fs room path).outcome = .ok e) :
    e.StandsBelow fs (fs.landing path) := by
  induction room generalizing path e with
  | zero => cases he
  | succ room ih =>
    obtain ⟨names, root, loaded, hnames, hroot, hloaded, rfl⟩ := directoryWithin_eq_ok.mp he
    obtain ⟨hpath, hcomponents, hnodup, -⟩ := FileSystem.isDirectory_of_names h hnames
    have hown := rootDocument_landing h hslash hnames hroot
    -- Each entry stands below its own name.
    have hentry : ∀ name ∈ Listing.sort (Listing.visible s names), ∀ e,
        (entry s fs (directoryWithin s fs room) (Path.join path name)).outcome = .ok e →
        e.StandsBelow fs (fs.landing path ++ [name]) := by
      intro name hname e he
      obtain ⟨hmem, -, hdot⟩ := Listing.mem_sort_visible.mp hname
      obtain ⟨hne, hsingle⟩ := hcomponents name hmem
      rw [← landing_join_name hpath hne hsingle hdot]
      obtain ⟨n, -, ⟨-, he⟩ | ⟨-, he⟩⟩ := entry_eq_ok he
      · exact ih he
      · exact file_standsBelow he
    have hfrom : ∀ e ∈ loaded, ∃ name, name ≠ s.rootDocument ∧
        e.StandsBelow fs (fs.landing path ++ [name]) := by
      intro e he
      obtain ⟨name, hname, hread⟩ := exists_of_mem_mapM hloaded e he
      exact ⟨name, (Listing.mem_sort_visible.mp hname).2.1, hentry name hname e hread⟩
    have hapart : loaded.Pairwise fun e e' => ∀ d ∈ e.documents, ∀ d' ∈ e'.documents,
        fs.landing d.filename ≠ fs.landing d'.filename := by
      refine pairwise_of_mapM hloaded (Listing.nodup_sort_visible hnodup) ?_
      intro a ha b hb hab e e' he he' d hd d' hd'
      exact landing_ne hab ((hentry a ha e he).below d hd) ((hentry b hb e' he').below d' hd')
    constructor
    · intro d hd
      rw [Entry.documents, Entry.documentsOf_eq_flatMap] at hd
      rcases List.mem_append.mp hd with hd | hd
      · obtain ⟨e, he, hd⟩ := List.mem_flatMap.mp hd
        obtain ⟨name, -, hbelow⟩ := hfrom e (List.mem_filter.mp he).1
        exact (List.prefix_append _ _).trans (hbelow.below d hd)
      · rw [hown d (by simpa using hd)]
        exact List.prefix_append _ _
    · rw [Entry.documents, Entry.documentsOf_eq_flatMap, List.pairwise_append,
        List.pairwise_flatMap]
      refine ⟨⟨?_, hapart.sublist List.filter_sublist⟩, ?_, ?_⟩
      · intro e he
        obtain ⟨name, -, hbelow⟩ := hfrom e (List.mem_filter.mp he).1
        exact hbelow.apart
      · cases root <;> simp
      · intro d hd d' hd'
        obtain ⟨e, he, hd⟩ := List.mem_flatMap.mp hd
        obtain ⟨name, hne, hbelow⟩ := hfrom e (List.mem_filter.mp he).1
        have hlast := hown d' (by simpa using hd')
        exact landing_ne hne (hbelow.below d hd) (hlast ▸ List.prefix_refl _)

end Load

/-- No two documents of a loaded tree are one file. -/
theorem load_landing {s : Settings} {fs : FileSystem} {path : Text} {e : Entry}
    (h : fs.root.isPlain) (hslash : '/' ∉ s.rootDocument)
    (he : (load s fs path).outcome = .ok e) :
    e.documents.Pairwise fun d d' => fs.landing d.filename ≠ fs.landing d'.filename := by
  rw [outcome_load] at he
  obtain ⟨n, -, he⟩ := bind_eq_ok.mp he
  split at he
  · exact (Load.directoryWithin_standsBelow h hslash he).apart
  · obtain ⟨d, -, he⟩ := bind_eq_ok.mp he
    cases he
    simp [Entry.documents]

end DocTree
