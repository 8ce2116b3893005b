import DocTree.Proofs.FileSystem.Kind
import DocTree.Proofs.Text.Utf8
import DocTree.Run

/-!
# Files under edit

A file that reads as a text is edited without fail, and nothing but what it says changes. Edits that
leave every text as it is leave the file system as it is.
-/
namespace DocTree.FileSystem

def LeadsTo (fs : FileSystem) (path : Text) (place : List Text) : Prop :=
  fs.resolve (Path.plain path) = .ok place

instance (fs : FileSystem) (path : Text) (place : List Text) : Decidable (fs.LeadsTo path place) :=
  decidable_of_iff ((fs.resolve (Path.plain path)).toOption = some place) (by
    unfold LeadsTo
    cases fs.resolve (Path.plain path) <;> simp [Except.toOption])

theorem Alike.leadsTo {fs fs' : FileSystem} (h : fs.Alike fs') (path : Text) (place : List Text) :
    fs'.LeadsTo path place ↔ fs.LeadsTo path place := by
  rw [LeadsTo, LeadsTo, h.resolve]

/-- A file name leads to a place where a file with a text stands. -/
structure Holds (fs : FileSystem) (path : Text) (place : List Text) (s : Text) : Prop where
  leadsTo : fs.LeadsTo path place
  at? : Node.at? place fs.root = some (.file (Text.Utf8.encode s))

def written (fs : FileSystem) (place : List Text) (s : Text) : FileSystem :=
  { fs with root := Node.put (.file (Text.Utf8.encode s)) place fs.root }

theorem kind_encode (s : Text) : (Node.file (Text.Utf8.encode s)).kind = .file none :=
  Node.kind_file (Text.Utf8.decode_encode s)

section

variable {fs : FileSystem} {path : Text} {place : List Text} {s : Text}

theorem Holds.resolve (h : fs.Holds path place s) : fs.resolve (Path.plain path) = .ok place :=
  h.leadsTo

theorem Holds.readText (h : fs.Holds path place s) : fs.readText path = .ok s := by
  simp [FileSystem.readText, readBytes, find, h.resolve, h.at?, bind, Except.bind, pure,
    Except.pure]

theorem find_eq_ok {n : Node} :
    fs.find path = .ok n ↔
      ∃ place, fs.resolve path = .ok place ∧ Node.at? place fs.root = some n := by
  rw [find, bind_eq_ok]
  refine exists_congr fun place => and_congr_right fun _ => ?_
  cases Node.at? place fs.root <;> simp [pure, Except.pure]

/-- The empty path leads nowhere. -/
theorem ne_nil_of_find {n : Node} (h : fs.find path = .ok n) : path ≠ [] := by
  rintro rfl
  obtain ⟨place, hplace, -⟩ := find_eq_ok.mp h
  cases hplace

/-- The bytes of a file are those at the place that its name leads to. -/
theorem readBytes_eq_ok {bytes : List UInt8} :
    fs.readBytes path = .ok bytes ↔
      ∃ place, fs.LeadsTo path place ∧ Node.at? place fs.root = some (.file bytes) := by
  constructor
  · intro h
    obtain ⟨n, hn, hfile⟩ := bind_eq_ok.mp h
    obtain ⟨place, hplace, hat⟩ := find_eq_ok.mp hn
    refine ⟨place, hplace, ?_⟩
    cases n with
    | directory entries => cases hfile
    | link target => cases hfile
    | file bytes' =>
      cases hfile
      exact hat
  · rintro ⟨place, hplace, hat⟩
    exact bind_eq_ok.mpr ⟨.file bytes, find_eq_ok.mpr ⟨place, hplace, hat⟩, rfl⟩

theorem Holds.readBytes (h : fs.Holds path place s) :
    fs.readBytes path = .ok (Text.Utf8.encode s) :=
  readBytes_eq_ok.mpr ⟨place, h.leadsTo, h.at?⟩

theorem exists_holds_of_readBytes (h : fs.readBytes path = .ok (Text.Utf8.encode s)) :
    ∃ place, fs.Holds path place s := by
  obtain ⟨place, hlead, hat⟩ := readBytes_eq_ok.mp h
  exact ⟨place, hlead, hat⟩

/-- A path that reads as a text leads to a file with it. -/
theorem exists_holds (h : fs.readText path = .ok s) : ∃ place, fs.Holds path place s := by
  obtain ⟨bytes, hbytes, hs⟩ := bind_eq_ok.mp h
  cases hdecode : Text.Utf8.decode bytes with
  | error fault =>
    rw [hdecode] at hs
    cases hs
  | ok s' =>
    rw [hdecode] at hs
    cases hs
    rw [← Text.Utf8.encode_of_decode hdecode] at hbytes
    exact exists_holds_of_readBytes hbytes

/-- Bytes that are no text are refused for what is wrong with them. -/
theorem readText_undecodable {bytes : List UInt8} (h : fs.readBytes path = .ok bytes)
    {fault : Text.Utf8.Fault} (hfault : Text.Utf8.decode bytes = .error fault) :
    fs.readText path = .error (.undecodable fault) := by
  rw [readText, h]
  dsimp only [bind, Except.bind]
  rw [hfault]

/-- Writing a text in place of another changes nothing but what it says. -/
theorem Holds.alike_written (h : fs.Holds path place s) (t : Text) :
    fs.Alike (fs.written place t) :=
  ⟨rfl, Node.kind_at?_put h.at? (by rw [kind_encode, kind_encode])⟩

/-- Writing what is there already changes nothing. -/
theorem Holds.written_self (h : fs.Holds path place s) : fs.written place s = fs := by
  rw [written, Node.put_self h.at?]

/-- What is written is there. -/
theorem Holds.written (h : fs.Holds path place s) (t : Text) :
    (fs.written place t).Holds path place t :=
  ⟨((h.alike_written t).leadsTo path place).mpr h.leadsTo, Node.at?_put_self h.at? _⟩

theorem Holds.edit {e : FileEdit} (h : fs.Holds e.filename place s) :
    fs.edit e = .ok (fs.written place (s.edited e.edits)) := by
  simp [FileSystem.edit, h.readText, writeText, writeBytes, h.resolve, h.at?, bind, Except.bind,
    pure, Except.pure, FileSystem.written]

end

variable {fs : FileSystem} {edits : List FileEdit}

theorem edit_eq_ok {fs' : FileSystem} {e : FileEdit} (h : fs.edit e = .ok fs') :
    ∃ place s, fs.Holds e.filename place s ∧ fs' = fs.written place (s.edited e.edits) := by
  obtain ⟨s, hs, -⟩ := bind_eq_ok.mp h
  obtain ⟨place, hholds⟩ := exists_holds hs
  rw [hholds.edit] at h
  exact ⟨place, s, hholds, (Except.ok.inj h).symm⟩

theorem alike_of_edit {fs' : FileSystem} {e : FileEdit} (h : fs.edit e = .ok fs') :
    fs.Alike fs' := by
  obtain ⟨place, s, hholds, rfl⟩ := edit_eq_ok h
  exact hholds.alike_written _

/-- Edits change nothing but what texts say. -/
theorem alike_editAll (fs : FileSystem) (edits : List FileEdit) :
    fs.Alike (fs.editAll edits).1 := by
  induction edits generalizing fs with
  | nil => exact Alike.refl fs
  | cons e rest ih =>
    rw [editAll]
    cases he : fs.edit e with
    | error fault => exact ih fs
    | ok fs' => exact (alike_of_edit he).trans (ih fs')

def Readable (fs : FileSystem) (edits : List FileEdit) : Prop :=
  ∀ f ∈ edits, ∃ s, fs.readText f.filename = .ok s

theorem Readable.of_alike {fs' : FileSystem} (h : fs.Readable edits) (halike : fs.Alike fs') :
    fs'.Readable edits := by
  intro f hf
  obtain ⟨s, hs⟩ := h f hf
  obtain ⟨s', hs', -⟩ := exists_ok_of_map_eq (halike.readText f.filename) hs
  exact ⟨s', hs'⟩

/-- Edits of the same files, one of which each file has. -/
theorem exists_of_names {again : List FileEdit} {g : FileEdit}
    (hnames : again.map FileEdit.filename = edits.map FileEdit.filename) (hg : g ∈ again) :
    ∃ f ∈ edits, f.filename = g.filename := by
  refine List.mem_map.mp ?_
  rw [← hnames]
  exact List.mem_map_of_mem hg

/-- Whether files can be read does not depend on their edits. -/
theorem Readable.of_names {again : List FileEdit} (h : fs.Readable edits)
    (hnames : again.map FileEdit.filename = edits.map FileEdit.filename) : fs.Readable again := by
  intro g hg
  obtain ⟨f, hf, heq⟩ := exists_of_names hnames hg
  rw [← heq]
  exact h f hf

/-- Files that can be read are edited without fail. -/
theorem Readable.editAll (h : fs.Readable edits) : (fs.editAll edits).2 = none := by
  induction edits generalizing fs with
  | nil => rfl
  | cons e rest ih =>
    obtain ⟨s, hs⟩ := h e (by simp)
    obtain ⟨place, hholds⟩ := exists_holds hs
    rw [FileSystem.editAll, hholds.edit]
    have hrest : fs.Readable rest := fun f hf => h f (by simp [hf])
    exact ih (hrest.of_alike (hholds.alike_written _))

/-- Files that were edited without fail can be read. -/
theorem readable_of_editAll (h : (fs.editAll edits).2 = none) : fs.Readable edits := by
  induction edits generalizing fs with
  | nil => simp [Readable]
  | cons e rest ih =>
    rw [FileSystem.editAll] at h
    cases he : fs.edit e with
    | error fault =>
      rw [he] at h
      cases h
    | ok fs' =>
      rw [he] at h
      obtain ⟨place, s, hholds, rfl⟩ := edit_eq_ok he
      have hrest : fs.Readable rest := (ih h).of_alike (hholds.alike_written _).symm
      intro f hf
      rcases List.mem_cons.mp hf with rfl | hf
      · exact ⟨s, hholds.readText⟩
      · exact hrest f hf

/-- Every text under edit stays as it is. -/
def Unmoved (fs : FileSystem) (edits : List FileEdit) : Prop :=
  ∀ f ∈ edits, ∀ s, fs.readText f.filename = .ok s → s.edited f.edits = s

/-- Edits that leave every text as it is leave the file system as it is. -/
theorem Unmoved.editAll (hr : fs.Readable edits) (hu : fs.Unmoved edits) :
    (fs.editAll edits).1 = fs := by
  induction edits with
  | nil => rfl
  | cons e rest ih =>
    obtain ⟨s, hs⟩ := hr e (by simp)
    obtain ⟨place, hholds⟩ := exists_holds hs
    rw [FileSystem.editAll, hholds.edit, hu e (by simp) s hs, hholds.written_self]
    exact ih (fun f hf => hr f (by simp [hf])) (fun f hf => hu f (by simp [hf]))

/-- The files under edit stand at different places. -/
def Separate (fs : FileSystem) (edits : List FileEdit) : Prop :=
  edits.Pairwise fun e f =>
    fs.resolve (Path.plain e.filename) ≠ fs.resolve (Path.plain f.filename)

theorem Separate.of_alike {fs' : FileSystem} (h : fs.Separate edits) (halike : fs.Alike fs') :
    fs'.Separate edits :=
  List.Pairwise.imp (fun hne => by rwa [halike.resolve, halike.resolve]) h

theorem Separate.of_names {again : List FileEdit} (h : fs.Separate edits)
    (hnames : again.map FileEdit.filename = edits.map FileEdit.filename) : fs.Separate again := by
  have hpairs : (edits.map FileEdit.filename).Pairwise fun a b =>
      fs.resolve (Path.plain a) ≠ fs.resolve (Path.plain b) := List.pairwise_map.mpr h
  rw [← hnames, List.pairwise_map] at hpairs
  exact hpairs

/-- The text at a place after edits, carried out one after another as far as they lead there. -/
def textAfter (fs : FileSystem) (place : List Text) (s : Text) : List FileEdit → Text
  | [] => s
  | e :: rest =>
    if fs.LeadsTo e.filename place then fs.textAfter place (s.edited e.edits) rest
    else fs.textAfter place s rest

theorem Alike.textAfter {fs' : FileSystem} (h : fs.Alike fs') (place : List Text) (s : Text)
    (edits : List FileEdit) : fs'.textAfter place s edits = fs.textAfter place s edits := by
  induction edits generalizing s with
  | nil => rfl
  | cons e rest ih => simp only [FileSystem.textAfter, h.leadsTo, ih]

/-- What edits make of the text at a place. -/
theorem at?_editAll {place : List Text} {s : Text}
    (h : Node.at? place fs.root = some (.file (Text.Utf8.encode s))) :
    Node.at? place (fs.editAll edits).1.root =
      some (.file (Text.Utf8.encode (fs.textAfter place s edits))) := by
  induction edits generalizing fs s with
  | nil => exact h
  | cons e rest ih =>
    rw [FileSystem.editAll, FileSystem.textAfter]
    by_cases hlead : fs.LeadsTo e.filename place
    · have hholds : fs.Holds e.filename place s := ⟨hlead, h⟩
      rw [if_pos hlead, hholds.edit, ← (hholds.alike_written (s.edited e.edits)).textAfter]
      exact ih (hholds.written _).at?
    · rw [if_neg hlead]
      cases he : fs.edit e with
      | error fault => exact ih h
      | ok fs' =>
        obtain ⟨place', s', hholds, rfl⟩ := edit_eq_ok he
        have hne : place ≠ place' := by
          rintro rfl
          exact hlead hholds.leadsTo
        rw [← (hholds.alike_written (s'.edited e.edits)).textAfter]
        exact ih (Node.at?_put_other hholds.at? h hne _)

/-- Bytes that are no text are left alone. -/
theorem at?_editAll_of_undecodable {place : List Text} {bytes : List UInt8}
    {fault : Text.Utf8.Fault} (h : Node.at? place fs.root = some (.file bytes))
    (hbytes : Text.Utf8.decode bytes = .error fault) :
    Node.at? place (fs.editAll edits).1.root = some (.file bytes) := by
  induction edits generalizing fs with
  | nil => exact h
  | cons e rest ih =>
    rw [FileSystem.editAll]
    cases he : fs.edit e with
    | error fault => exact ih h
    | ok fs' =>
      obtain ⟨place', s', hholds, rfl⟩ := edit_eq_ok he
      have hne : place ≠ place' := by
        rintro rfl
        rw [hholds.at?] at h
        cases h
        rw [Text.Utf8.decode_encode] at hbytes
        cases hbytes
      exact ih (Node.at?_put_other hholds.at? h hne _)

def bytesAt? (fs : FileSystem) (place : List Text) : Option (List UInt8) :=
  match Node.at? place fs.root with
  | some (.file bytes) => some bytes
  | _ => none

theorem bytesAt?_eq_some {place : List Text} {bytes : List UInt8} :
    fs.bytesAt? place = some bytes ↔ Node.at? place fs.root = some (.file bytes) := by
  unfold bytesAt?
  split
  · rename_i hfile
    simp [hfile]
  · rename_i hother
    simp only [reduceCtorEq, false_iff]
    exact hother bytes

def SameFiles (fs fs' : FileSystem) : Prop :=
  ∀ place, fs'.bytesAt? place = fs.bytesAt? place

/-- File systems that agree in all but what texts say have files at the same places. -/
theorem Alike.bytesAt?_eq_none {fs' : FileSystem} (h : fs.Alike fs') {place : List Text}
    (hnone : fs.bytesAt? place = none) : fs'.bytesAt? place = none := by
  cases hbytes : fs'.bytesAt? place with
  | none => rfl
  | some bytes =>
    obtain ⟨n, hn, hkind⟩ := h.symm.at?_eq_some (bytesAt?_eq_some.mp hbytes)
    obtain ⟨bytes', rfl⟩ := Node.kind_eq_kind_file hkind
    rw [bytesAt?_eq_some.mpr hn] at hnone
    cases hnone

/-- Every text under edit is the same after all edits that lead to it. -/
def Settled (fs : FileSystem) (edits : List FileEdit) : Prop :=
  ∀ f ∈ edits, ∀ place s, fs.Holds f.filename place s → fs.textAfter place s edits = s

theorem textAfter_eq_self {place : List Text}
    (h : ∀ f ∈ edits, ¬ fs.LeadsTo f.filename place) (s : Text) :
    fs.textAfter place s edits = s := by
  induction edits with
  | nil => rfl
  | cons e rest ih =>
    rw [FileSystem.textAfter, if_neg (h e (by simp))]
    exact ih fun f hf => h f (by simp [hf])

/-- A file is as it was after edits that leave its text as it is. -/
theorem bytesAt?_editAll {place : List Text}
    (h : ∀ s, Node.at? place fs.root = some (.file (Text.Utf8.encode s)) →
      fs.textAfter place s edits = s) :
    (fs.editAll edits).1.bytesAt? place = fs.bytesAt? place := by
  cases hbytes : fs.bytesAt? place with
  | none => exact (alike_editAll fs edits).bytesAt?_eq_none hbytes
  | some bytes =>
    have hat := bytesAt?_eq_some.mp hbytes
    rw [bytesAt?_eq_some]
    cases hdecode : Text.Utf8.decode bytes with
    | error fault => exact at?_editAll_of_undecodable hat hdecode
    | ok s =>
      rw [← Text.Utf8.encode_of_decode hdecode] at hat ⊢
      rw [at?_editAll hat, h s hat]

/-- Edits leave every file as it is exactly if they settle. -/
theorem sameFiles_editAll_iff : fs.SameFiles (fs.editAll edits).1 ↔ fs.Settled edits := by
  constructor
  · intro hsame f hf place s hholds
    have hafter := hsame place
    rw [bytesAt?_eq_some.mpr hholds.at?, bytesAt?_eq_some.mpr (at?_editAll hholds.at?)] at hafter
    exact Text.Utf8.encode_inj (Option.some.inj hafter)
  · intro hsettled place
    refine bytesAt?_editAll fun s hat => ?_
    by_cases hlead : ∃ f ∈ edits, fs.LeadsTo f.filename place
    · obtain ⟨f, hf, hlead⟩ := hlead
      exact hsettled f hf place s ⟨hlead, hat⟩
    · exact textAfter_eq_self (fun f hf hlead' => hlead ⟨f, hf, hlead'⟩) s

/-- Where only one of the files under edit leads, only its edits count. -/
theorem Separate.textAfter_eq (hsep : fs.Separate edits) {f : FileEdit} (hf : f ∈ edits)
    {place : List Text} (hlead : fs.LeadsTo f.filename place) (s : Text) :
    fs.textAfter place s edits = s.edited f.edits := by
  induction edits with
  | nil => cases hf
  | cons e rest ih =>
    obtain ⟨he, hrest⟩ := List.pairwise_cons.mp hsep
    rw [textAfter]
    rcases List.mem_cons.mp hf with rfl | hf
    · rw [if_pos hlead]
      exact textAfter_eq_self (fun g hg hlead' => he g hg (hlead.trans hlead'.symm)) _
    · rw [if_neg fun hlead' => he f hf (hlead'.trans hlead.symm)]
      exact ih hrest hf

/-- Edits of files at different places settle exactly if every text stays as it is. -/
theorem Separate.settled_iff (hsep : fs.Separate edits) : fs.Settled edits ↔ fs.Unmoved edits := by
  constructor
  · intro h f hf s hs
    obtain ⟨place, hholds⟩ := exists_holds hs
    rw [← hsep.textAfter_eq hf hholds.leadsTo s]
    exact h f hf place s hholds
  · intro h f hf place s hholds
    rw [hsep.textAfter_eq hf hholds.leadsTo s]
    exact h f hf s hholds.readText

end DocTree.FileSystem
