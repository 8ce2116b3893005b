import DocTree.Proofs.Plan.Named

/-!
# Chains of entries

The entries of a directory are chained by their navigation: the row of each leads to the entry
before it, to the one after it and up to the directory's own document. A directory is represented
in the chain by its own document, and is passed over where it has none. The directory's own document
lists the entries in the order of the chain.
-/
namespace DocTree

def Nav.around (entries : List Entry) (root : Option Document) (i : Nat) : Nav where
  previous := if i = 0 then none else entries[i - 1]?
  next := entries[i + 1]?
  up := root.map .document

theorem Nav.previous_around_eq_none_iff {entries : List Entry} {root : Option Document} {i : Nat}
    (hi : i < entries.length) : (around entries root i).previous = none ↔ i = 0 := by
  cases i with
  | zero => simp [around]
  | succ i =>
    have hprevious : (around entries root (i + 1)).previous = entries[i]? := rfl
    rw [hprevious, List.getElem?_eq_none_iff]
    omega

theorem Nav.next_around_eq_none_iff {entries : List Entry} {root : Option Document} {i : Nat}
    (hi : i < entries.length) : (around entries root i).next = none ↔ i + 1 = entries.length := by
  rw [around, List.getElem?_eq_none_iff]
  omega

namespace Entry

def own? : Entry → Option Document
  | document d => some d
  | directory _ _ _ root => root

def inner : Entry → List Document
  | document _ => []
  | directory _ _ entries _ => documentsOf entries

/-- An entry stands in a tree with so many of the tree's documents before its own ones. -/
inductive StandsAt (tree : Entry) : Nat → Entry → Prop
  | self : StandsAt tree 0 tree
  | entry {k i : Nat} {filename title : Text} {entries : List Entry} {root : Option Document}
      {e : Entry} (h : StandsAt tree k (directory filename title entries root))
      (he : entries[i]? = some e) :
      StandsAt tree (k + (documentsOf (entries.take i)).length) e

/-- The number of a directory's documents before the one that an entry of it is or is represented
by. -/
def rank (entries : List Entry) (i : Nat) (e : Entry) : Nat :=
  (documentsOf (entries.take i)).length + e.inner.length

theorem length_seats (nav : Nav) (e : Entry) : (e.seats nav).length = e.documents.length := by
  rw [← map_document_seats nav, List.length_map]

/-- The seats of an entry of a directory lie together, behind those of the entries before it. -/
theorem exists_seatsOf (up previous : Option Entry) {entries : List Entry} {i : Nat} {e : Entry}
    (he : entries[i]? = some e) :
    ∃ front back, seatsOf up previous entries = front ++ e.seats
        { previous := if i = 0 then previous else entries[i - 1]?, next := entries[i + 1]?, up } ++
        back ∧ front.length = (documentsOf (entries.take i)).length := by
  induction entries generalizing previous i with
  | nil => cases he
  | cons a rest ih =>
    cases i with
    | zero =>
      cases he
      exact ⟨[], seatsOf up (some e) rest, by simp [seatsOf, List.head?_eq_getElem?], rfl⟩
    | succ i =>
      obtain ⟨front, back, hseats, hlength⟩ := ih (some a) he
      have hprevious : (if i = 0 then some a else rest[i - 1]?) = (a :: rest)[i]? := by
        cases i <;> simp
      refine ⟨a.seats { previous, next := rest.head?, up } ++ front, back, ?_, ?_⟩
      · rw [seatsOf, hseats, hprevious]
        simp
      · rw [List.take_succ_cons, documentsOf, List.length_append, List.length_append, length_seats,
          hlength]

/-- A seat below a directory is that of an entry of it, which leads to what is around it. -/
theorem mem_seatsOf {up previous : Option Entry} {entries : List Entry} {x : Seat}
    (hx : x ∈ seatsOf up previous entries) :
    ∃ (i : Nat) (e : Entry), entries[i]? = some e ∧ x ∈ e.seats
      { previous := if i = 0 then previous else entries[i - 1]?, next := entries[i + 1]?, up } := by
  induction entries generalizing previous with
  | nil => cases hx
  | cons a rest ih =>
    rw [seatsOf, List.head?_eq_getElem?] at hx
    rcases List.mem_append.mp hx with hx | hx
    · exact ⟨0, a, rfl, hx⟩
    · obtain ⟨i, e, he, hx⟩ := ih hx
      have hprevious : (if i = 0 then some a else rest[i - 1]?) = (a :: rest)[i]? := by
        cases i <;> simp
      rw [hprevious] at hx
      exact ⟨i + 1, e, he, hx⟩

/-- The seats of an entry that stands in a tree lie together, behind those of the documents before
it. -/
theorem StandsAt.exists_seats {tree e : Entry} {k : Nat} (h : tree.StandsAt k e) (n : Nav) :
    ∃ nav front back, tree.seats n = front ++ e.seats nav ++ back ∧ front.length = k := by
  induction h with
  | self => exact ⟨n, [], [], by simp, rfl⟩
  | @entry k i filename title entries root e h he ih =>
    obtain ⟨nav, front, back, hseats, hlength⟩ := ih
    obtain ⟨before, after, hentries, hbefore⟩ :=
      exists_seatsOf (root.map .document) none he
    refine ⟨Nav.around entries root i, front ++ before,
      after ++ root.toList.map (Seat.ofRoot entries nav) ++ back, ?_, ?_⟩
    · rw [hseats, seats, hentries, ← Nav.around]
      simp
    · rw [List.length_append, hlength, hbefore]

/-- The seat of an entry's own document is the last of its seats, and leads where the entry does. -/
theorem exists_seats_own {e : Entry} {d : Document} (h : e.own? = some d) (nav : Nav) :
    ∃ front entries?, e.seats nav = front ++ [⟨d, nav, entries?⟩] ∧
      front.length = e.inner.length := by
  cases e with
  | document d' =>
    cases h
    exact ⟨[], none, rfl, rfl⟩
  | directory filename title entries root =>
    cases h
    refine ⟨seatsOf (some (.document d)) none entries, some entries, rfl, ?_⟩
    rw [inner, ← map_document_seatsOf (some (.document d)) none, List.length_map]

/-- Where a directory stands in a tree, the document that an entry of it is or is represented by has
its seat, and leads to what is around the entry. -/
theorem StandsAt.exists_seat_entry {tree : Entry} {k : Nat} {filename title : Text}
    {entries : List Entry} {root : Option Document}
    (h : tree.StandsAt k (.directory filename title entries root)) (n : Nav) {i : Nat} {e : Entry}
    (he : entries[i]? = some e) {d : Document} (hd : e.own? = some d) :
    ∃ x, (tree.seats n)[k + rank entries i e]? = some x ∧ x.document = d ∧
      x.nav = Nav.around entries root i := by
  obtain ⟨nav, front, back, hseats, hlength⟩ := h.exists_seats n
  obtain ⟨before, after, hentries, hbefore⟩ :=
    exists_seatsOf (root.map .document) none he
  obtain ⟨inside, entries?, hown, hinside⟩ := exists_seats_own hd (Nav.around entries root i)
  refine ⟨⟨d, Nav.around entries root i, entries?⟩, ?_, rfl, rfl⟩
  have hsplit : tree.seats n = (front ++ before ++ inside) ++
      ⟨d, Nav.around entries root i, entries?⟩ ::
        (after ++ root.toList.map (Seat.ofRoot entries nav) ++ back) := by
    rw [hseats, seats, hentries, ← Nav.around, hown]
    simp
  have hindex : k + rank entries i e = (front ++ before ++ inside).length := by
    rw [List.length_append, List.length_append, hlength, hbefore, hinside, rank, Nat.add_assoc]
  rw [hsplit, hindex, List.getElem?_append_right (Nat.le_refl _), Nat.sub_self]
  rfl

/-- Where a directory stands in a tree, its own document has the seat behind those of the
entries, and lists them. -/
theorem StandsAt.exists_seat_root {tree : Entry} {k : Nat} {filename title : Text}
    {entries : List Entry} {d : Document}
    (h : tree.StandsAt k (.directory filename title entries (some d))) (n : Nav) :
    ∃ nav, (tree.seats n)[k + (documentsOf entries).length]? = some (Seat.ofRoot entries nav d) := by
  obtain ⟨nav, front, back, hseats, hlength⟩ := h.exists_seats n
  refine ⟨nav, ?_⟩
  have hindex : k + (documentsOf entries).length =
      (front ++ seatsOf (some (.document d)) none entries).length := by
    rw [List.length_append, hlength, ← map_document_seatsOf (some (.document d)) none,
      List.length_map]
  rw [hseats, seats, hindex]
  simp

end Entry

namespace Plan

/-- The edits of a document with a navigation row of three cells. -/
structure Row (s : Settings) (f : FileEdit) (d : Document) (n : Nav) (previous up next : Text) :
    Prop where
  filename : f.filename = d.filename
  edit : f.edits[1]? =
    some (d.editFor Marker.nav (Render.table previous up next) [.top])
  nav : Render.nav s d.filename n = .ok (Render.table previous up next)
  previous : Render.cell s d.filename n.previous = .ok previous
  up : Render.cell s d.filename n.up = .ok up
  next : Render.cell s d.filename n.next = .ok next

variable {s : Settings}

/-- The edits of a document hold its navigation row. -/
theorem exists_row {x : Seat} {f : FileEdit} (h : x.edit s = .ok f) :
    ∃ previous up next, Row s f x.document x.nav previous up next := by
  obtain ⟨d, n, entries?⟩ := x
  have hnav : ∃ toc nav, Render.nav s d.filename n = .ok nav ∧ fileEdit d toc nav = f := by
    cases entries? with
    | none =>
      obtain ⟨nav, hnav, hf⟩ := ofDocument_eq_ok.mp h
      exact ⟨_, nav, hnav, hf⟩
    | some entries =>
      obtain ⟨toc, -, nav, hnav, hf⟩ := ofRoot_eq_ok.mp h
      exact ⟨toc, nav, hnav, hf⟩
  obtain ⟨toc, nav, hnav, rfl⟩ := hnav
  obtain ⟨previous, up, next, hprevious, hup, hnext, rfl⟩ := Render.nav_eq_ok.mp hnav
  exact ⟨previous, up, next, rfl, rfl, hnav, hprevious, hup, hnext⟩

/-- The edits of a directory's own document hold the list of the entries. -/
theorem exists_listing {entries : List Entry} {nav : Nav} {d : Document} {f : FileEdit}
    (h : (Seat.ofRoot entries nav d).edit s = .ok f) :
    ∃ links, entries.mapM (Render.entryLink s d.filename) = .ok links ∧
      f.filename = d.filename ∧
      f.edits[0]? =
        some (d.editFor Marker.toc (Render.listing links) [.secondLevel, .bottom]) := by
  obtain ⟨toc, htoc, nav, -, rfl⟩ := ofRoot_eq_ok.mp h
  obtain ⟨links, hlinks, rfl⟩ := Render.fileToc_eq_ok.mp htoc
  exact ⟨links, hlinks, rfl, rfl⟩

/-- Where a directory stands in a tree, the row of each of its entries leads to the entries around
it and up to the directory's own document, and a cell is empty only at an end of the chain or where
there is nothing above. -/
theorem exists_row_entry {tree : Entry} {n : Nav} {edits : List FileEdit}
    (hedits : ofEntry s tree n = .ok edits) {k : Nat} {filename title : Text}
    {entries : List Entry} {root : Option Document}
    (h : tree.StandsAt k (.directory filename title entries root)) {i : Nat} {e : Entry}
    (he : entries[i]? = some e) {d : Document} (hd : e.own? = some d) :
    ∃ f previous up next, edits[k + Entry.rank entries i e]? = some f ∧
      Row s f d (Nav.around entries root i) previous up next ∧
      (previous = [] ↔ i = 0) ∧ (next = [] ↔ i + 1 = entries.length) ∧
      (up = [] ↔ root = none) := by
  obtain ⟨x, hx, rfl, hnav⟩ := h.exists_seat_entry n he hd
  obtain ⟨f, hf, hedit⟩ := exists_getElem?_of_forall₂ (forall₂_seats hedits) hx
  obtain ⟨previous, up, next, hrow⟩ := exists_row hedit
  rw [hnav] at hrow
  obtain ⟨hi, -⟩ := List.getElem?_eq_some_iff.mp he
  refine ⟨f, previous, up, next, hf, hrow, ?_, ?_, ?_⟩
  · rw [Render.cell_eq_nil_iff hrow.previous, Nav.previous_around_eq_none_iff hi]
  · rw [Render.cell_eq_nil_iff hrow.next, Nav.next_around_eq_none_iff hi]
  · rw [Render.cell_eq_nil_iff hrow.up, Nav.around, Option.map_eq_none_iff]

/-- In the plan of a tree in which everything has a name, the entries of every directory are
chained. The navigation of an entry's own document leads to the entries right before and after it
and up to the directory's own document, each cell being empty exactly where there is no such thing:
the one before only for the first entry, the one after only for the last. So of two neighbours each
links to the other. The directory's own document lists the links to the entries, one by one in the
same order. -/
theorem entries_chained {tree : Entry} {n : Nav} (htree : tree.Named) (hn : n.Named) :
    ∃ edits, ofEntry s tree n = .ok edits ∧
      ∀ {k : Nat} {filename title : Text} {entries : List Entry} {root : Option Document},
        tree.StandsAt k (.directory filename title entries root) →
        (∀ i e d, entries[i]? = some e → e.own? = some d → ∃ f previous up next,
          edits[k + Entry.rank entries i e]? = some f ∧
          Row s f d (Nav.around entries root i) previous up next ∧
          (previous = [] ↔ i = 0) ∧ (next = [] ↔ i + 1 = entries.length) ∧
          (up = [] ↔ root = none)) ∧
        (∀ i a b c d, entries[i]? = some a → entries[i + 1]? = some b → a.own? = some c →
          b.own? = some d → ∃ f g previous up next previous' up' next',
          edits[k + Entry.rank entries i a]? = some f ∧
          edits[k + Entry.rank entries (i + 1) b]? = some g ∧
          Row s f c (Nav.around entries root i) previous up next ∧
          Row s g d (Nav.around entries root (i + 1)) previous' up' next' ∧
          Render.entryLink s c.filename b = .ok next ∧
          Render.entryLink s d.filename a = .ok previous') ∧
        ∀ d ∈ root, ∃ f links, edits[k + (Entry.documentsOf entries).length]? = some f ∧
          f.filename = d.filename ∧
          f.edits[0]? =
            some (d.editFor Marker.toc (Render.listing links) [.secondLevel, .bottom]) ∧
          List.Forall₂ (fun e link => Render.entryLink s d.filename e = .ok link)
            entries links := by
  obtain ⟨edits, hedits⟩ := exists_ofEntry s htree hn
  refine ⟨edits, hedits, ?_⟩
  intro k filename title entries root h
  refine ⟨fun i e d he hd => exists_row_entry hedits h he hd, ?_, ?_⟩
  · intro i a b c d ha hb hc hd
    obtain ⟨f, previous, up, next, hf, hrow, -⟩ := exists_row_entry hedits h ha hc
    obtain ⟨g, previous', up', next', hg, hrow', -⟩ := exists_row_entry hedits h hb hd
    have hnext : Render.cell s c.filename entries[i + 1]? = .ok next := hrow.next
    have hprevious : Render.cell s d.filename entries[i]? = .ok previous' := hrow'.previous
    rw [hb] at hnext
    rw [ha] at hprevious
    exact ⟨f, g, previous, up, next, previous', up', next', hf, hg, hrow, hrow', hnext, hprevious⟩
  · rintro d hd
    cases hd
    obtain ⟨nav, hx⟩ := h.exists_seat_root n
    obtain ⟨f, hf, hedit⟩ := exists_getElem?_of_forall₂ (forall₂_seats hedits) hx
    obtain ⟨links, hlinks, hfilename, htoc⟩ := exists_listing hedit
    exact ⟨f, links, hf, hfilename, htoc, forall₂_of_mapM hlinks⟩

/-- Below a directory with a document of its own: one without, whose entries are chained to each
other only, and one with, which its own document represents in the chain. -/
theorem entries_chained_nested :
    let x : Document := { filename := "d/s/x.md".toList, title := "X".toList }
    let y : Document := { filename := "d/s/y.md".toList, title := "Y".toList }
    let t : Document := { filename := "d/t/README.md".toList, title := "T".toList }
    let d : Document := { filename := "d/README.md".toList, title := "D".toList }
    let tree : Entry := .directory "d".toList "D".toList
      [.directory "d/s".toList "S".toList [.document x, .document y] none,
        .directory "d/t".toList "T".toList [] (some t)] (some d)
    ∃ edits, ofEntry {} tree {} = .ok edits ∧
      edits[0]?.bind (·.edits[1]?) =
        some (x.editFor Marker.nav (Render.table [] [] "[Y](y.md)".toList) [.top]) ∧
      edits[2]?.bind (·.edits[1]?) =
        some (t.editFor Marker.nav
          (Render.table "[S](../s)".toList "[D](../README.md)".toList []) [.top]) := by
  intro x y t d tree
  have htree : tree.Named := by simp [tree, x, y, t, d, Entry.Named, Entry.NamedAll]
  obtain ⟨edits, hedits, hchain⟩ := entries_chained (s := {}) htree (n := {})
    ⟨by simp, by simp, by simp⟩
  refine ⟨edits, hedits, ?_, ?_⟩
  · obtain ⟨f, previous, up, next, hf, hrow, hfirst, -, hnone⟩ :=
      (hchain (.entry (i := 0) .self rfl)).1 0 (.document x) x rfl rfl
    have hf : edits[0]? = some f := hf
    have hlink : Render.cell {} x.filename (some (.document y)) =
        .ok "[Y](y.md)".toList := by decide +kernel
    have hnext := Except.ok.inj (hlink.symm.trans hrow.next)
    rw [hf, Option.bind_some, hrow.edit, hfirst.mpr rfl, hnone.mpr rfl, hnext]
  · obtain ⟨f, previous, up, next, hf, hrow, -, hlast, -⟩ :=
      (hchain .self).1 1 (.directory "d/t".toList "T".toList [] (some t)) t rfl rfl
    have hf : edits[2]? = some f := hf
    have hback : Render.cell {} t.filename
        (some (.directory "d/s".toList "S".toList [.document x, .document y] none)) =
        .ok "[S](../s)".toList := by decide +kernel
    have hover : Render.cell {} t.filename (some (.document d)) =
        .ok "[D](../README.md)".toList := by decide +kernel
    have hprevious := Except.ok.inj (hback.symm.trans hrow.previous)
    have hup := Except.ok.inj (hover.symm.trans hrow.up)
    rw [hf, Option.bind_some, hrow.edit, hprevious, hup, hlast.mpr rfl]

end Plan

end DocTree
