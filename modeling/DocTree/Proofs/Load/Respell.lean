import DocTree.Proofs.FileSystem.Respell
import DocTree.Proofs.Load.Order
import DocTree.Proofs.Plan.Twin

/-!
# Loading a directory under two names

A directory that is loaded under two names gives two trees with the same documents in the same seats.
Loading fails under one name only if a path is too long there or leads through too many links.
-/
namespace DocTree

/-- Where the first of two computations gives something, the second gives something related, or is
limited. -/
def Mirrors {α β : Type} (R : α → β → Prop) (x : Except Fault α) (y : Except Fault β) : Prop :=
  ∀ a, x = .ok a → (∃ b, y = .ok b ∧ R a b) ∨ Limited y

namespace Mirrors

variable {α β γ δ ι : Type} {R : α → β → Prop} {S : γ → δ → Prop} {x : Except Fault α}
  {y : Except Fault β}

theorem ok {a : α} {b : β} (h : R a b) : Mirrors R (.ok a) (.ok b) := by
  rintro _ ⟨⟩
  exact .inl ⟨b, rfl, h⟩

theorem imp {S : α → β → Prop} (h : Mirrors R x y) (hRS : ∀ a b, R a b → S a b) : Mirrors S x y := by
  intro a ha
  exact (h a ha).imp_left fun ⟨b, hb, hab⟩ => ⟨b, hb, hRS a b hab⟩

theorem map {f : α → γ} {g : β → δ} (h : Mirrors R x y) (hfg : ∀ a b, R a b → S (f a) (g b)) :
    Mirrors S (x.map f) (y.map g) := by
  intro c hc
  obtain ⟨a, ha, rfl⟩ := map_eq_ok.mp hc
  obtain ⟨b, rfl, hab⟩ | ⟨fault, rfl, hlimit⟩ := h a ha
  · exact .inl ⟨g b, rfl, hfg a b hab⟩
  · exact .inr ⟨fault, rfl, hlimit⟩

theorem bind {f : α → Except Fault γ} {g : β → Except Fault δ} (h : Mirrors R x y)
    (hfg : ∀ a b, x = .ok a → y = .ok b → R a b → Mirrors S (f a) (g b)) :
    Mirrors S (x >>= f) (y >>= g) := by
  intro c hc
  obtain ⟨a, ha, hc⟩ := bind_eq_ok.mp hc
  obtain ⟨b, hb, hab⟩ | hlimit := h a ha
  · rw [hb]
    exact hfg a b ha hb hab c hc
  · exact .inr (hlimit.bind g)

theorem mapM {f : ι → Except Fault α} {g : ι → Except Fault β} {xs : List ι}
    (h : ∀ i ∈ xs, Mirrors R (f i) (g i)) : Mirrors (List.Forall₂ R) (xs.mapM f) (xs.mapM g) := by
  induction xs with
  | nil => exact ok .nil
  | cons i xs ih =>
    rw [List.mapM_cons, List.mapM_cons]
    apply (h i (by simp)).bind
    intro a b _ _ hab
    apply (ih fun j hj => h j (by simp [hj])).bind
    intro as bs _ _ habs
    exact ok (.cons hab habs)

end Mirrors

theorem AgreeUnder.mirrors {α : Type} {path : Text} {x y : Except Fault α} (h : AgreeUnder path x y) :
    Mirrors Eq x y := by
  rintro a rfl
  obtain hx | hy | rfl := h
  · exact absurd hx (not_limited_ok a)
  · exact .inr hy
  · exact .inl ⟨a, rfl, rfl⟩

namespace FileSystem

variable {fs : FileSystem} {a b : Text}

theorem names_agree (h : AgreeUnder b (fs.find a) (fs.find b)) : Mirrors Eq (fs.names a) (fs.names b) := by
  have hbind : AgreeUnder b (fs.names a) (fs.names b) := by
    apply h.bind
    intro n
    cases n <;> rfl
  exact hbind.mirrors

theorem exists?_agree (h : AgreeUnder b (fs.find a) (fs.find b)) :
    Mirrors Eq (fs.exists? a) (fs.exists? b) := by
  intro found hfound
  rw [exists?] at hfound ⊢
  obtain ⟨fault, hfault, path, rfl | rfl⟩ | ⟨fault, hfault, path, rfl | rfl⟩ | hsame := h
  · rw [hfault] at hfound
    cases hfound
  · rw [hfault] at hfound
    cases hfound
  · rw [hfault]
    exact .inr ⟨_, rfl, path, .inl rfl⟩
  · rw [hfault]
    exact .inr ⟨_, rfl, path, .inr rfl⟩
  · rw [hsame]
    cases hfind : fs.find a with
    | ok n =>
      rw [hfind] at hfound
      exact .inl ⟨found, hfound, rfl⟩
    | error fault =>
      rw [hfind] at hfound
      split at hfound
      · rename_i heq
        cases heq
      · rename_i heq
        cases heq
        exact .inl ⟨found, hfound, rfl⟩
      · cases hfound

/-- A file that is found under two names is read under both. -/
theorem readText_agree (h : AgreeUnder b (fs.resolve a) (fs.resolve b)) {n m : Node}
    (ha : fs.find a = .ok n) (hb : fs.find b = .ok m) : Mirrors Eq (fs.readText a) (fs.readText b) := by
  intro text htext
  obtain ⟨place, hplace, -⟩ := find_eq_ok.mp ha
  obtain ⟨other, hother, -⟩ := find_eq_ok.mp hb
  obtain ⟨_, heq, rfl⟩ | hlimit := h.mirrors place hplace
  · exact (readText_or hplace heq htext).imp_left fun hread => ⟨text, hread, rfl⟩
  · rw [hother] at hlimit
    exact absurd hlimit (not_limited_ok other)

end FileSystem

namespace Load

open DocTree.Path (Alongside Descends)

variable {s : Settings} {fs : FileSystem} {p q : Text} {here : List Text}

theorem ofText_twin (hp : p ≠ []) (hq : q ≠ []) {a b : Text} (h : Alongside p q a b) (s : Settings)
    (contents : Text) : (ofText s a contents).Twin p q (ofText s b contents) where
  alongside := h
  title := by
    obtain ⟨r, hr, rfl, rfl⟩ := h
    simp only [ofText, Path.baseName_join hp hr.relative, Path.baseName_join hq hr.relative]
  sections := by
    obtain ⟨r, hr, rfl, rfl⟩ := h
    simp only [ofText, Path.baseName_join hp hr.relative, Path.baseName_join hq hr.relative,
      Section.underAll_nest]
  page := rfl
  lineCount := rfl

theorem isMarkdown_alongside (hextension : '/' ∉ s.extension.tail) (hp : p ≠ []) (hq : q ≠ [])
    {a b : Text} (h : Alongside p q a b) : s.isMarkdown b = s.isMarkdown a := by
  obtain ⟨r, hr, rfl, rfl⟩ := h
  rw [Settings.isMarkdown_join_relative hextension hp hr.relative,
    Settings.isMarkdown_join_relative hextension hq hr.relative]

/-- An entry as it is read under another name: it is listed if the first one is, and then it has
one title with it and seats alike. -/
structure Respelled (s : Settings) (p q : Text) (e e' : Entry) : Prop where
  listed : Listing.isListed s e' = Listing.isListed s e
  twin : Listing.isListed s e → e.Twin p q e' ∧ e.SeatsAlike p q e'

theorem forall₂_filter_listed {loaded loaded' : List Entry}
    (h : List.Forall₂ (Respelled s p q) loaded loaded') :
    List.Forall₂ (fun e e' => e.Twin p q e' ∧ e.SeatsAlike p q e')
      (loaded.filter (Listing.isListed s)) (loaded'.filter (Listing.isListed s)) := by
  induction h with
  | nil => exact .nil
  | @cons e e' _ _ he hrest ih =>
    rw [List.filter_cons, List.filter_cons, he.listed]
    split
    · rename_i hlisted
      exact .cons (he.twin hlisted) ih
    · exact ih

section

variable (hd : fs.SameDirectory p q here) {a b : Text}

include hd

theorem resolve_alongside (h : Alongside p q a b) :
    AgreeUnder b (fs.resolve a) (fs.resolve b) := by
  obtain ⟨r, hr, rfl, rfl⟩ := h
  exact hd.resolve hr.relative

theorem find_alongside (h : Alongside p q a b) :
    AgreeUnder b (fs.find a) (fs.find b) := by
  obtain ⟨r, hr, rfl, rfl⟩ := h
  exact hd.find hr.relative

theorem document_alongside (h : Alongside p q a b) {n m : Node} (ha : fs.find a = .ok n)
    (hb : fs.find b = .ok m) :
    Mirrors (Document.Twin p q) (document s fs a).outcome (document s fs b).outcome := by
  obtain ⟨hp, hq⟩ := hd.ne_nil
  rw [outcome_document, outcome_document]
  apply (FileSystem.readText_agree (resolve_alongside hd h) ha hb).map
  rintro text _ rfl
  exact ofText_twin hp hq h s text

/-- The document that represents a directory is found under both names, or under none. -/
theorem rootDocument_alongside
    (hdown : Alongside p q (Path.join a s.rootDocument) (Path.join b s.rootDocument)) :
    Mirrors (Option.Rel (Document.Twin p q)) (rootDocument s fs a).outcome
      (rootDocument s fs b).outcome := by
  rw [outcome_rootDocument, outcome_rootDocument]
  apply (FileSystem.exists?_agree (find_alongside hd hdown)).bind
  rintro found _ hfound hfound' rfl
  cases found with
  | false => exact .ok .none
  | true =>
    obtain ⟨n, hn⟩ := FileSystem.exists_find_of_exists? hfound
    obtain ⟨m, hm⟩ := FileSystem.exists_find_of_exists? hfound'
    exact (document_alongside hd hdown hn hm).bind fun _ _ _ _ htwin => .ok (.some htwin)

theorem file_alongside (hextension : '/' ∉ s.extension.tail) (h : Alongside p q a b) {n m : Node}
    (ha : fs.find a = .ok n) (hb : fs.find b = .ok m) :
    Mirrors (Respelled s p q) (file s fs a).outcome (file s fs b).outcome := by
  have hmarkdown := isMarkdown_alongside hextension hd.ne_nil.1 hd.ne_nil.2 h
  rw [outcome_file, outcome_file, hmarkdown]
  split
  · apply (document_alongside hd h ha hb).bind
    intro d d' _ _ htwin
    have hlisted : s.isMarkdown d'.filename = s.isMarkdown d.filename :=
      isMarkdown_alongside hextension hd.ne_nil.1 hd.ne_nil.2 htwin.alongside
    have hseats : Entry.SeatsAlike p q (.document d) (.document d') :=
      fun n n' hnav => .cons ⟨htwin, hnav, .none⟩ .nil
    exact .ok ⟨hlisted, fun _ => ⟨htwin.entry, hseats⟩⟩
  · rename_i hother
    exact .ok ⟨hmarkdown, fun hlisted => absurd hlisted hother⟩

theorem entry_alongside (hextension : '/' ∉ s.extension.tail) (h : Alongside p q a b)
    {directory directory' : Text → Traced Entry}
    (hdirectory : Mirrors (Respelled s p q) (directory a).outcome (directory' b).outcome) :
    Mirrors (Respelled s p q) (entry s fs directory a).outcome (entry s fs directory' b).outcome := by
  rw [outcome_entry, outcome_entry]
  apply (find_alongside hd h).mirrors.bind
  rintro n _ hn hn' rfl
  split
  · exact hdirectory
  · exact file_alongside hd hextension h hn hn'

end

structure Reread (s : Settings) (p q a b : Text) (e e' : Entry) : Prop where
  filename : e.filename = a ∧ e'.filename = b
  title : Path.baseName (Path.normal b) = Path.baseName (Path.normal a) → e'.title = e.title
  listed : Listing.isListed s e' = Listing.isListed s e
  seats : e.SeatsAlike p q e'

/-- Below both directories it is an entry like any other. -/
theorem Reread.respelled {a b name : Text} (hname : Path.IsName name) {e e' : Entry}
    (h : Reread s p q (Path.join a name) (Path.join b name) e e')
    (halongside : Alongside p q (Path.join a name) (Path.join b name)) : Respelled s p q e e' := by
  have htitle : e'.title = e.title :=
    h.title (by rw [Path.baseName_normal_join b hname, Path.baseName_normal_join a hname])
  rw [← h.filename.1, ← h.filename.2] at halongside
  exact ⟨h.listed, fun _ => ⟨⟨halongside, htitle⟩, h.seats⟩⟩

theorem reread_directory {a b : Text} {loaded loaded' : List Entry} {root root' : Option Document}
    (h : List.Forall₂ (Respelled s p q) loaded loaded')
    (hroot : Option.Rel (Document.Twin p q) root root') :
    Reread s p q a b
      (.directory a ((root.map Document.title).getD (Path.baseName (Path.normal a)))
        (loaded.filter (Listing.isListed s)) root)
      (.directory b ((root'.map Document.title).getD (Path.baseName (Path.normal b)))
        (loaded'.filter (Listing.isListed s)) root') := by
  have hentries := forall₂_filter_listed h
  constructor
  case filename => exact ⟨rfl, rfl⟩
  case seats => exact Entry.seats_directory_alike hentries hroot _ _ _ _
  case title =>
    intro hbase
    cases hroot with
    | none => exact hbase
    | some hdoc => exact hdoc.title
  case listed =>
    have hempty : (loaded'.filter (Listing.isListed s)).isEmpty =
        (loaded.filter (Listing.isListed s)).isEmpty := by
      rw [Bool.eq_iff_iff, List.isEmpty_iff_length_eq_zero, List.isEmpty_iff_length_eq_zero,
        hentries.length_eq]
    cases hroot with
    | none => simp only [Listing.isListed, hempty]
    | some hdoc => rfl

/-- A directory is read under another name as it was under the first, down to its last entry. -/
theorem directoryWithin_alongside (hd : fs.SameDirectory p q here) (hnamed : fs.root.isNamed)
    (hextension : '/' ∉ s.extension.tail) (hrootDocument : Descends s.rootDocument) (room : Nat)
    {a b : Text} (hnames : Mirrors Eq (fs.names a) (fs.names b))
    (hdown : ∀ t, Descends t → Alongside p q (Path.join a t) (Path.join b t)) :
    Mirrors (Reread s p q a b) (directoryWithin s fs room a).outcome
      (directoryWithin s fs room b).outcome := by
  induction room generalizing a b with
  | zero =>
    intro e he
    cases he
  | succ room ih =>
    rw [outcome_directoryWithin, outcome_directoryWithin]
    apply hnames.bind
    rintro names _ hheld - rfl
    apply (rootDocument_alongside hd (hdown _ hrootDocument)).bind
    intro root root' _ _ hroot
    apply Mirrors.bind (R := List.Forall₂ (Respelled s p q))
    · apply Mirrors.mapM
      intro name hmem
      have hname : Path.IsName name :=
        (FileSystem.names_isName hnamed hheld).2 name (Listing.mem_sort_visible.mp hmem).1
      have halongside := hdown name hname.descends
      have hinner := ih (FileSystem.names_agree (find_alongside hd halongside))
        fun t ht => halongside.join hd.ne_nil.1 hd.ne_nil.2 ht
      apply entry_alongside hd hextension halongside
      exact hinner.imp fun _ _ hreread => hreread.respelled hname halongside
    · intro loaded loaded' _ _ hloaded
      exact .ok (reread_directory hloaded hroot)

end Load

/-- A directory is loaded under another name with the same documents in the same seats, unless a
path is too long there or leads through too many links. -/
theorem load_alongside {s : Settings} {fs : FileSystem} {p q : Text} {here : List Text}
    (hd : fs.SameDirectory p q here) (hnamed : fs.root.isNamed)
    (hextension : '/' ∉ s.extension.tail) (hrootDocument : Path.Descends s.rootDocument) :
    Mirrors (Entry.SeatsAlike p q) (load s fs p).outcome (load s fs q).outcome := by
  obtain ⟨inside, hat⟩ := hd.directory
  have hp : fs.find p = .ok (.directory inside) := FileSystem.find_eq_ok.mpr ⟨here, hd.left, hat⟩
  have hq : fs.find q = .ok (.directory inside) := FileSystem.find_eq_ok.mpr ⟨here, hd.right, hat⟩
  have hnames : Mirrors Eq (fs.names p) (fs.names q) := by
    rw [FileSystem.names, FileSystem.names, hp, hq]
    exact .ok rfl
  have hread := Load.directoryWithin_alongside hd hnamed hextension hrootDocument FileSystem.maxPath
    hnames fun t ht => ⟨t, ht, rfl, rfl⟩
  rw [outcome_load, outcome_load, hp, hq]
  exact hread.imp fun _ _ hreread => hreread.seats

end DocTree
