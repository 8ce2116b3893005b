import DocTree.Proofs.FileSystem.Edit

/-!
# Texts written over texts

Texts written at different places may be written in any order. So what some writes leave behind
depends on which texts stand at which places in the end, and not on the order of the writes.
-/
namespace DocTree

namespace Node

theorem putEntry_putEntry (name : Text) (n m : Node) (entries : List (Text × Node)) :
    putEntry name n (putEntry name m entries) = putEntry name n entries := by
  induction entries with
  | nil => simp [putEntry]
  | cons entry rest ih =>
    obtain ⟨key, old⟩ := entry
    by_cases hkey : key = name <;> simp [putEntry, hkey, ih]

/-- Entries that are there are put under different names in any order. -/
theorem putEntry_comm {a b : Text} (hne : a ≠ b) {entries : List (Text × Node)}
    (ha : (entries.lookup a).isSome) (hb : (entries.lookup b).isSome) (n m : Node) :
    putEntry a n (putEntry b m entries) = putEntry b m (putEntry a n entries) := by
  induction entries with
  | nil => cases ha
  | cons entry rest ih =>
    obtain ⟨key, old⟩ := entry
    by_cases hka : key = a
    · subst hka
      simp [putEntry, hne]
    by_cases hkb : key = b
    · subst hkb
      simp [putEntry, hka]
    · rw [lookup_cons_of_ne (Ne.symm hka)] at ha
      rw [lookup_cons_of_ne (Ne.symm hkb)] at hb
      simp [putEntry, hka, hkb, ih ha hb]

/-- Files that are there are put at different places in any order. -/
theorem put_comm {place other : List Text} {root : Node} {bytes bytes' : List UInt8}
    (hplace : at? place root = some (file bytes)) (hother : at? other root = some (file bytes'))
    (hne : place ≠ other) (n m : Node) :
    put n place (put m other root) = put m other (put n place root) := by
  induction place generalizing root other with
  | nil =>
    cases hplace
    cases other with
    | nil => exact absurd rfl hne
    | cons name rest => cases hother
  | cons a rest ih =>
    obtain ⟨entries, child, rfl, hchild, hrest⟩ := exists_child_of_at? hplace
    cases other with
    | nil => cases hother
    | cons b rest' =>
      rw [at?_cons, child?] at hother
      obtain ⟨child', hchild', hrest'⟩ := Option.bind_eq_some_iff.mp hother
      have ha : ∀ m, (putEntry b m entries).lookup a = if a = b then some m else some child :=
        fun m => by rw [lookup_putEntry, hchild]
      have hb : ∀ n, (putEntry a n entries).lookup b = if b = a then some n else some child' :=
        fun n => by rw [lookup_putEntry, hchild']
      rw [put_cons hchild', put_cons hchild]
      by_cases hab : a = b
      · subst hab
        cases hchild.symm.trans hchild'
        rw [put_cons (by rw [ha, if_pos rfl]), put_cons (by rw [hb, if_pos rfl]),
          putEntry_putEntry, putEntry_putEntry]
        have hne' : rest ≠ rest' := by
          rintro rfl
          exact hne rfl
        rw [ih hrest hrest' hne']
      · rw [put_cons (by rw [ha, if_neg hab]), put_cons (by rw [hb, if_neg (Ne.symm hab)])]
        rw [putEntry_comm hab (by simp [hchild]) (by simp [hchild'])]

end Node

namespace FileSystem

/-- What stands at a place is one text only. -/
theorem text_unique {found : Option Node} {s t : Text} (hs : found = some (.file (Text.Utf8.encode s)))
    (ht : found = some (.file (Text.Utf8.encode t))) : s = t := by
  have hsame := Option.some.inj (hs.symm.trans ht)
  exact Text.Utf8.encode_inj (Node.file.inj hsame)

def TextAt (fs : FileSystem) (place : List Text) : Prop :=
  ∃ s, Node.at? place fs.root = some (.file (Text.Utf8.encode s))

section

variable {fs fs' : FileSystem} {place other : List Text}

theorem TextAt.of_alike (h : fs.TextAt place) (halike : fs.Alike fs') : fs'.TextAt place := by
  obtain ⟨s, hs⟩ := h
  obtain ⟨n, hn, hkind⟩ := halike.at?_eq_some hs
  obtain ⟨bytes, rfl⟩ := Node.kind_eq_kind_file hkind
  obtain ⟨t, ht, -⟩ := exists_ok_of_map_eq (Node.decode_of_kind_eq hkind) (Text.Utf8.decode_encode s)
  exact ⟨t, by rw [hn, Text.Utf8.encode_of_decode ht]⟩

theorem Holds.textAt {path : Text} {s : Text} (h : fs.Holds path place s) : fs.TextAt place :=
  ⟨s, h.at?⟩

/-- A name that leads to a text leads to one after other texts are written. -/
theorem Holds.exists_of_alike {path : Text} {s : Text} (h : fs.Holds path place s)
    (halike : fs.Alike fs') : ∃ t, fs'.Holds path place t := by
  obtain ⟨t, ht⟩ := h.textAt.of_alike halike
  exact ⟨t, (halike.leadsTo path place).mpr h.leadsTo, ht⟩

/-- One text stands at a place, whatever name leads there. -/
theorem Holds.text_eq {path path' : Text} {s t : Text} (h : fs.Holds path place s)
    (h' : fs.Holds path' place t) : s = t :=
  text_unique h.at? h'.at?

theorem TextAt.alike_written (h : fs.TextAt place) (t : Text) : fs.Alike (fs.written place t) := by
  obtain ⟨s, hs⟩ := h
  exact ⟨rfl, Node.kind_at?_put hs (by rw [kind_encode, kind_encode])⟩

theorem TextAt.at?_written (h : fs.TextAt place) (t : Text) :
    Node.at? place (fs.written place t).root = some (.file (Text.Utf8.encode t)) := by
  obtain ⟨s, hs⟩ := h
  exact Node.at?_put_self hs _

theorem TextAt.written_comm (h : fs.TextAt place) (hother : fs.TextAt other) (hne : place ≠ other)
    (s t : Text) : (fs.written other t).written place s = (fs.written place s).written other t := by
  obtain ⟨old, hold⟩ := h
  obtain ⟨old', hold'⟩ := hother
  simp [written, Node.put_comm hold hold' hne]

end

def writtenAll (fs : FileSystem) (changes : List (List Text × Text)) : FileSystem :=
  changes.foldr (fun c fs => fs.written c.1 c.2) fs

@[simp] theorem writtenAll_cons (fs : FileSystem) (c : List Text × Text)
    (rest : List (List Text × Text)) :
    fs.writtenAll (c :: rest) = (fs.writtenAll rest).written c.1 c.2 := rfl

/-- Changes of texts that are there, of one place into one text only. -/
structure Consistent (fs : FileSystem) (changes : List (List Text × Text)) : Prop where
  textAt : ∀ c ∈ changes, fs.TextAt c.1
  eq : ∀ c ∈ changes, ∀ d ∈ changes, c.1 = d.1 → c.2 = d.2

section

variable {fs : FileSystem} {changes more : List (List Text × Text)} {place : List Text} {s : Text}

theorem Consistent.mono (h : fs.Consistent changes) (hsub : more ⊆ changes) : fs.Consistent more :=
  ⟨fun c hc => h.textAt c (hsub hc), fun c hc d hd => h.eq c (hsub hc) d (hsub hd)⟩

theorem alike_writtenAll (h : ∀ c ∈ changes, fs.TextAt c.1) : fs.Alike (fs.writtenAll changes) := by
  induction changes with
  | nil => exact Alike.refl fs
  | cons c rest ih =>
    have hrest := ih fun d hd => h d (by simp [hd])
    exact hrest.trans (((h c (by simp)).of_alike hrest).alike_written c.2)

/-- Two texts are written in either order, at different places or to the same effect. -/
theorem Consistent.written_swap {c d : List Text × Text} (h : fs.Consistent (c :: d :: changes)) :
    ((fs.writtenAll changes).written d.1 d.2).written c.1 c.2 =
      ((fs.writtenAll changes).written c.1 c.2).written d.1 d.2 := by
  by_cases hplace : c.1 = d.1
  · rw [hplace, h.eq c (by simp) d (by simp) hplace]
  · have halike : fs.Alike (fs.writtenAll changes) :=
      alike_writtenAll fun e he => h.textAt e (by simp [he])
    have hc := (h.textAt c (by simp)).of_alike halike
    have hd := (h.textAt d (by simp)).of_alike halike
    exact hc.written_comm hd hplace c.2 d.2

theorem Consistent.perm (h : fs.Consistent changes) (hperm : changes.Perm more) :
    fs.writtenAll changes = fs.writtenAll more := by
  induction hperm with
  | nil => rfl
  | cons c _ ih => rw [writtenAll_cons, writtenAll_cons, ih (h.mono (List.subset_cons_self c _))]
  | swap c d rest => exact h.written_swap
  | trans hfirst _ ih ih' =>
    exact (ih h).trans (ih' (h.mono hfirst.symm.subset))

/-- What is changed at a place is found there. -/
theorem Consistent.at?_writtenAll (h : fs.Consistent changes) {c : List Text × Text}
    (hc : c ∈ changes) :
    Node.at? c.1 (fs.writtenAll changes).root = some (.file (Text.Utf8.encode c.2)) := by
  obtain ⟨before, after, rfl⟩ := List.append_of_mem hc
  have hperm : (before ++ c :: after).Perm (c :: (before ++ after)) := List.perm_middle
  rw [h.perm hperm, writtenAll_cons]
  have halike : fs.Alike (fs.writtenAll (before ++ after)) := alike_writtenAll fun d hd =>
    h.textAt d (hperm.symm.subset (List.mem_cons_of_mem c hd))
  exact ((h.textAt c hc).of_alike halike).at?_written c.2

/-- A file is as it was where nothing is changed. -/
theorem bytesAt?_writtenAll (h : ∀ c ∈ changes, fs.TextAt c.1) (hplace : ∀ c ∈ changes, c.1 ≠ place) :
    (fs.writtenAll changes).bytesAt? place = fs.bytesAt? place := by
  have halike := alike_writtenAll h
  cases hbytes : fs.bytesAt? place with
  | none => exact halike.bytesAt?_eq_none hbytes
  | some bytes =>
    rw [bytesAt?_eq_some] at hbytes ⊢
    clear halike
    induction changes with
    | nil => exact hbytes
    | cons c rest ih =>
      have hrest : ∀ d ∈ rest, fs.TextAt d.1 := fun d hd => h d (by simp [hd])
      obtain ⟨old, hold⟩ := (h c (by simp)).of_alike (alike_writtenAll hrest)
      have hfile := ih hrest fun d hd => hplace d (by simp [hd])
      exact Node.at?_put_other hold hfile (Ne.symm (hplace c (by simp))) _

end

end FileSystem

end DocTree
