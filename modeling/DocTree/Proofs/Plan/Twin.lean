import DocTree.Proofs.Path.Respell
import DocTree.Proofs.Plan.Seats

/-!
# Trees under two names

Two trees hold the same documents in the same seats, under file names that lead on in one way from
two paths. Sections, titles and pages do not tell the trees apart.
-/
namespace DocTree

mutual

def Section.under (filename : Text) : Section → Section
  | .mk level title anchor _ children => .mk level title anchor filename (Section.underAll filename children)

def Section.underAll (filename : Text) : List Section → List Section
  | [] => []
  | x :: rest => x.under filename :: Section.underAll filename rest

end

namespace Section

theorem underAll_eq_map (filename : Text) (forest : List Section) :
    underAll filename forest = forest.map (under filename) := by
  induction forest with
  | nil => rfl
  | cons x rest ih => rw [underAll, ih, List.map_cons]

@[simp] theorem level_under (filename : Text) (x : Section) : (x.under filename).level = x.level := by
  cases x
  rfl

/-- Headings are nested by their levels, whatever file they are in. -/
theorem underAll_nest (filename other : Text) (headings : List Heading) :
    underAll filename (Heading.nest other headings) = Heading.nest filename headings := by
  induction headings with
  | nil => rfl
  | cons h headings ih =>
    have hnest : ∀ file, Heading.nest file (h :: headings) =
        Heading.adopt file h (Heading.nest file headings) := fun _ => rfl
    rw [hnest, hnest, ← ih]
    simp only [Heading.adopt, underAll_eq_map, List.map_cons, under, List.takeWhile_map,
      List.dropWhile_map, Function.comp_def, level_under]

mutual

theorem flatten_under (filename : Text) (limit : Int) (x : Section) :
    (x.under filename).flatten limit = (x.flatten limit).map (under filename) := by
  cases x with
  | mk level title anchor other children =>
    rw [under, flatten, flatten]
    split
    · rfl
    · rw [flattenAll_underAll, List.map_cons, under]

theorem flattenAll_underAll (filename : Text) (limit : Int) (forest : List Section) :
    flattenAll limit (underAll filename forest) = (flattenAll limit forest).map (under filename) := by
  cases forest with
  | nil => rfl
  | cons x rest =>
    rw [underAll, flattenAll, flattenAll, List.map_append, flatten_under, flattenAll_underAll]

end

/-- A table of contents does not show the file that it is in. -/
theorem sectionToc_underAll (filename : Text) (forest : List Section) (depth : Int) :
    Render.sectionToc (underAll filename forest) depth = Render.sectionToc forest depth := by
  have hline : ∀ x : Section, Render.tocLine (x.under filename) = Render.tocLine x := by
    rintro ⟨⟩
    rfl
  have hempty : (underAll filename forest).isEmpty = forest.isEmpty := by
    cases forest <;> rfl
  simp only [Render.sectionToc, hempty, flattenAll_underAll, List.map_map, Function.comp_def, hline]

end Section

/-- One document under two file names, which lead on from `p` and from `q` in one way. -/
structure Document.Twin (p q : Text) (d d' : Document) : Prop where
  alongside : Path.Alongside p q d.filename d'.filename
  title : d'.title = d.title
  sections : d'.sections = Section.underAll d'.filename d.sections
  page : d'.page = d.page
  lineCount : d'.lineCount = d.lineCount

/-- Two entries that are linked alike: they have one title, and lead on in one way. -/
structure Entry.Twin (p q : Text) (e e' : Entry) : Prop where
  alongside : Path.Alongside p q e.filename e'.filename
  title : e'.title = e.title

structure Nav.Twin (p q : Text) (n n' : Nav) : Prop where
  previous : Option.Rel (Entry.Twin p q) n.previous n'.previous
  next : Option.Rel (Entry.Twin p q) n.next n'.next
  up : Option.Rel (Entry.Twin p q) n.up n'.up

structure Seat.Twin (p q : Text) (x y : Seat) : Prop where
  document : x.document.Twin p q y.document
  nav : x.nav.Twin p q y.nav
  entries? : Option.Rel (List.Forall₂ (Entry.Twin p q)) x.entries? y.entries?

/-- Two trees with the same documents in the same seats, wherever the trees themselves are put. -/
def Entry.SeatsAlike (p q : Text) (e e' : Entry) : Prop :=
  ∀ n n', Nav.Twin p q n n' → List.Forall₂ (Seat.Twin p q) (e.seats n) (e'.seats n')

theorem Document.Twin.entry {p q : Text} {d d' : Document} (h : d.Twin p q d') :
    Entry.Twin p q (.document d) (.document d') :=
  ⟨h.alongside, h.title⟩

theorem Nav.twin_empty (p q : Text) : Nav.Twin p q {} {} :=
  ⟨.none, .none, .none⟩

section

variable {p q : Text}

/-- Entries alike one by one have seats alike. -/
theorem Entry.seatsOf_alike {entries entries' : List Entry} {up up' previous previous' : Option Entry}
    (h : List.Forall₂ (fun e e' => e.Twin p q e' ∧ e.SeatsAlike p q e') entries entries')
    (hup : Option.Rel (Entry.Twin p q) up up')
    (hprevious : Option.Rel (Entry.Twin p q) previous previous') :
    List.Forall₂ (Seat.Twin p q) (Entry.seatsOf up previous entries)
      (Entry.seatsOf up' previous' entries') := by
  induction h generalizing previous previous' with
  | nil => exact .nil
  | cons he hrest ih =>
    have hnext : ∀ {rest rest' : List Entry},
        List.Forall₂ (fun e e' => e.Twin p q e' ∧ e.SeatsAlike p q e') rest rest' →
        Option.Rel (Entry.Twin p q) rest.head? rest'.head? := by
      rintro _ _ (_ | ⟨hfirst, -⟩)
      · exact .none
      · exact .some hfirst.1
    rw [Entry.seatsOf, Entry.seatsOf]
    exact List.rel_append (he.2 _ _ ⟨hprevious, hnext hrest, hup⟩) (ih (.some he.1))

/-- So have the directories of such entries, if their own documents are alike. -/
theorem Entry.seats_directory_alike {entries entries' : List Entry} {root root' : Option Document}
    (h : List.Forall₂ (fun e e' => e.Twin p q e' ∧ e.SeatsAlike p q e') entries entries')
    (hroot : Option.Rel (Document.Twin p q) root root') (a b title title' : Text) :
    Entry.SeatsAlike p q (.directory a title entries root) (.directory b title' entries' root') := by
  intro n n' hnav
  rw [Entry.seats, Entry.seats]
  have hlinks : List.Forall₂ (Entry.Twin p q) entries entries' := h.imp fun _ _ he => he.1
  cases hroot with
  | none => simpa using Entry.seatsOf_alike h .none .none
  | some hd =>
    apply List.rel_append (Entry.seatsOf_alike h (.some hd.entry) .none)
    exact .cons ⟨hd, hnav, .some hlinks⟩ .nil

end

end DocTree
