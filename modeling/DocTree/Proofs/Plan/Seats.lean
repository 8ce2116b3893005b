import DocTree.Plan
import DocTree.Proofs.Load.Documents

/-!
# Seats

A seat is a document of a tree together with what its blocks lead to: its neighbours, the document
it goes up to, and the entries it lists if it represents a directory. A plan is the edits of the
seats one by one, so what holds of every seat holds of the plan.
-/
namespace DocTree

/-- A document in its place in a tree. -/
structure Seat where
  document : Document
  nav : Nav
  /-- The entries that a directory's own document lists in place of its sections. -/
  entries? : Option (List Entry)

def Seat.edit (s : Settings) (x : Seat) : Except LinkFault FileEdit :=
  match x.entries? with
  | none => Plan.ofDocument s x.document x.nav
  | some entries => Plan.ofRoot s x.document entries x.nav

def Seat.ofRoot (entries : List Entry) (nav : Nav) (root : Document) : Seat :=
  ⟨root, nav, some entries⟩

mutual

/-- The seats of a tree in the order of its documents, the tree itself leading where `nav` says. -/
def Entry.seats (nav : Nav) : Entry → List Seat
  | .document d => [⟨d, nav, none⟩]
  | .directory _ _ entries root =>
    Entry.seatsOf (root.map .document) none entries ++ root.toList.map (Seat.ofRoot entries nav)

def Entry.seatsOf (up previous : Option Entry) : List Entry → List Seat
  | [] => []
  | e :: rest => e.seats { previous, next := rest.head?, up } ++ Entry.seatsOf up (some e) rest

end

mutual

/-- There is one seat for each document. -/
theorem Entry.map_document_seats (nav : Nav) (e : Entry) :
    (e.seats nav).map Seat.document = e.documents := by
  cases e with
  | document d => rfl
  | directory filename title entries root =>
    rw [seats, documents, List.map_append, map_document_seatsOf]
    cases root <;> rfl

theorem Entry.map_document_seatsOf (up previous : Option Entry) (entries : List Entry) :
    (Entry.seatsOf up previous entries).map Seat.document = Entry.documentsOf entries := by
  cases entries with
  | nil => rfl
  | cons e rest =>
    rw [seatsOf, documentsOf, List.map_append, map_document_seats, map_document_seatsOf]

end

namespace Plan

mutual

/-- A plan is the edits of the seats, in order. -/
theorem ofEntry_eq (s : Settings) (e : Entry) (nav : Nav) :
    ofEntry s e nav = (e.seats nav).mapM (Seat.edit s) := by
  cases e with
  | document d =>
    rw [ofEntry, Entry.seats, List.mapM_cons, List.mapM_nil]
    rfl
  | directory filename title entries root =>
    rw [ofEntry, Entry.seats, List.mapM_append, ofEntries_eq]
    cases root with
    | none => simp
    | some root => simp [Seat.ofRoot, Seat.edit]

theorem ofEntries_eq (s : Settings) (up previous : Option Entry) (entries : List Entry) :
    ofEntries s up previous entries = (Entry.seatsOf up previous entries).mapM (Seat.edit s) := by
  cases entries with
  | nil => rfl
  | cons e rest =>
    rw [ofEntries, Entry.seatsOf, List.mapM_append, ofEntry_eq, ofEntries_eq]

end

/-- The edits of a plan and the seats they belong to. -/
theorem forall₂_seats {s : Settings} {e : Entry} {nav : Nav} {edits : List FileEdit}
    (h : ofEntry s e nav = .ok edits) :
    List.Forall₂ (fun x f => x.edit s = .ok f) (e.seats nav) edits :=
  forall₂_of_mapM (ofEntry_eq s e nav ▸ h)

end Plan

end DocTree
