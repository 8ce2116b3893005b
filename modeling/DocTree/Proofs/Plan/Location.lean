import DocTree.Proofs.Plan.Place

/-!
# Places given by name

Where a block goes that is not there yet can be told by a list of names. A document without a heading
of the second level passes over the name of the place before one. The first name that it does not
pass over settles the matter: as the name of a place, or as an error if no place is called so. What
stands behind it has no say, and without such a name the block goes to the bottom. No name has a say
where the block is there already.
-/
namespace DocTree.Document

open Markdown.Page (raws titles)

def Location.name : Location → Text
  | .top => "top".toList
  | .secondLevel => "h2".toList
  | .bottom => "bottom".toList

@[simp] theorem Location.ofName?_name (location : Location) :
    ofName? location.name = some location := by
  cases location <;> decide

theorem Location.ofName?_eq_some_iff {name : Text} {location : Location} :
    ofName? name = some location ↔ name = location.name := by
  constructor
  · intro h
    rw [ofName?] at h
    split_ifs at h with htop hsecond hbottom
    · cases h
      exact htop
    · cases h
      exact hsecond
    · cases h
      exact hbottom
  · rintro rfl
    exact ofName?_name location

theorem Location.name_inj {a b : Location} : a.name = b.name ↔ a = b := by
  rw [← ofName?_eq_some_iff, ofName?_name, Option.some.injEq]

theorem Location.ofName?_eq_none_iff {name : Text} :
    ofName? name = none ↔ ∀ location : Location, name ≠ location.name := by
  simp [Option.eq_none_iff_forall_ne_some, ofName?_eq_some_iff]

/-- The document has a line that begins a block of the kind. -/
def Begins (d : Document) (m : Marker) : Prop :=
  ∃ x ∈ raws d.page, x.literal = m.beginLine

/-- The name is that of the place before the first heading of the second level, and the document has
no such heading. -/
def PassesOver (d : Document) (name : Text) : Prop :=
  name = Location.secondLevel.name ∧ ∀ t ∈ titles d.page, t.level ≠ 2

/-- The name is the first of some names that the document does not pass over. -/
def Settles (d : Document) (names : List Text) (name : Text) : Prop :=
  ∃ passed rest, names = passed ++ name :: rest ∧ (∀ other ∈ passed, d.PassesOver other) ∧
    ¬ d.PassesOver name

variable {d : Document} {m : Marker} {name : Text} {names : List Text}

theorem secondLevel?_eq_none_iff : d.secondLevel? = none ↔ ∀ t ∈ titles d.page, t.level ≠ 2 := by
  simp [secondLevel?, List.find?_eq_none]

theorem exists_title_of_secondLevel? {span : Span} (h : d.secondLevel? = some span) :
    ∃ before t after, titles d.page = before ++ t :: after ∧ (∀ u ∈ before, u.level ≠ 2) ∧
      t.level = 2 ∧ span = Span.before t.index := by
  obtain ⟨t, hfind, rfl⟩ := Option.map_eq_some_iff.mp h
  obtain ⟨hlevel, before, after, htitles, hbefore⟩ := List.find?_eq_some_iff_append.mp hfind
  exact ⟨before, t, after, htitles, by simpa using hbefore, by simpa using hlevel, rfl⟩

theorem findNamed_name (location : Location) :
    d.findNamed location.name = .ok (d.find? location) := by
  rw [findNamed, Location.ofName?_name]

theorem findNamed_unknown (h : ∀ location : Location, name ≠ location.name) :
    d.findNamed name = .error ⟨name⟩ := by
  rw [findNamed, Location.ofName?_eq_none_iff.mpr h]

/-- A name is passed over exactly if it is that of a place which the document does not have. -/
theorem findNamed_eq_none_iff : d.findNamed name = .ok none ↔ d.PassesOver name := by
  by_cases hknown : ∃ location : Location, name = location.name
  · obtain ⟨location, rfl⟩ := hknown
    rw [findNamed_name, Except.ok.injEq, PassesOver, Location.name_inj, ← secondLevel?_eq_none_iff]
    cases location <;> simp [Document.find?]
  · push Not at hknown
    simp [findNamed_unknown hknown, PassesOver, hknown]

theorem firstNamed_append {passed : List Text} (h : ∀ other ∈ passed, d.PassesOver other)
    (rest : List Text) : d.firstNamed (passed ++ rest) = d.firstNamed rest := by
  induction passed with
  | nil => rfl
  | cons other passed ih =>
    have hother := findNamed_eq_none_iff.mpr (h other List.mem_cons_self)
    rw [List.cons_append, firstNamed, hother]
    exact ih fun more hmore => h more (List.mem_cons_of_mem _ hmore)

/-- A name that is not passed over does the same in front of other names as it does alone. -/
theorem firstNamed_cons (h : ¬ d.PassesOver name) (rest : List Text) :
    d.firstNamed (name :: rest) = d.firstNamed [name] := by
  -- only a place that the document does not have hands on to the names behind it
  rw [firstNamed, firstNamed]
  cases hfind : d.findNamed name with
  | error e => rfl
  | ok span? =>
    cases span? with
    | some span => rfl
    | none => exact absurd (findNamed_eq_none_iff.mp hfind) h

theorem Settles.not_passesOver (h : d.Settles names name) : ¬ d.PassesOver name := by
  obtain ⟨passed, rest, -, -, hname⟩ := h
  exact hname

theorem Settles.firstNamed_eq (h : d.Settles names name) :
    d.firstNamed names = d.firstNamed [name] := by
  obtain ⟨passed, rest, rfl, hpassed, hname⟩ := h
  rw [firstNamed_append hpassed, firstNamed_cons hname]

/-- Some name settles the matter unless the document passes over all of them. -/
theorem exists_settles_iff :
    (∃ name, d.Settles names name) ↔ ∃ name ∈ names, ¬ d.PassesOver name := by
  constructor
  · rintro ⟨name, passed, rest, rfl, -, hname⟩
    exact ⟨name, by simp, hname⟩
  · intro h
    induction names with
    | nil => simp at h
    | cons other rest ih =>
      by_cases hother : d.PassesOver other
      · obtain ⟨name, passed, behind, rfl, hpassed, hname⟩ := ih (by simpa [hother] using h)
        exact ⟨name, other :: passed, behind, rfl, by simpa [hother] using hpassed, hname⟩
      · exact ⟨other, [], rest, rfl, by simp, hother⟩

theorem firstNamed_of_not_settles (h : ¬ ∃ name, d.Settles names name) :
    d.firstNamed names = .ok d.bottom := by
  have hpassed : ∀ other ∈ names, d.PassesOver other := by
    simpa [exists_settles_iff] using h
  rw [← List.append_nil names, firstNamed_append hpassed, firstNamed]

/-- Names of places do what the places do. -/
theorem firstNamed_map_name (locations : List Location) :
    d.firstNamed (locations.map Location.name) = .ok (d.firstOf locations) := by
  induction locations with
  | nil => rfl
  | cons location rest ih =>
    rw [List.map_cons, firstNamed, findNamed_name, firstOf, List.findSome?_cons]
    cases d.find? location with
    | some span => rfl
    | none => exact ih

theorem Settles.firstNamed_eq_firstOf {location : Location} (h : d.Settles names location.name) :
    d.firstNamed names = .ok (d.firstOf [location]) :=
  h.firstNamed_eq.trans (firstNamed_map_name [location])

/-- There is an error exactly if a name settles the matter that is none of a place, and it tells that
name. -/
theorem firstNamed_eq_error_iff {e : UnknownLocation} : d.firstNamed names = .error e ↔
    d.Settles names e.name ∧ ∀ location : Location, e.name ≠ location.name := by
  constructor
  · intro h
    by_cases hsettles : ∃ name, d.Settles names name
    · obtain ⟨name, hname⟩ := hsettles
      rw [hname.firstNamed_eq] at h
      by_cases hknown : ∃ location : Location, name = location.name
      · obtain ⟨location, rfl⟩ := hknown
        cases (firstNamed_map_name [location]).symm.trans h
      · push Not at hknown
        rw [firstNamed, findNamed_unknown hknown] at h
        cases h
        exact ⟨hname, hknown⟩
    · rw [firstNamed_of_not_settles hsettles] at h
      cases h
  · rintro ⟨hsettles, hunknown⟩
    rw [hsettles.firstNamed_eq, firstNamed, findNamed_unknown hunknown]

theorem findMarker_eq_none_iff : d.findMarker m = none ↔ ¬ d.Begins m := by
  simp [findMarker, Marker.lastIndex?, Begins]

theorem Begins.exists_findMarker (h : d.Begins m) : ∃ span, d.findMarker m = some span := by
  rw [← Option.ne_none_iff_exists']
  exact fun hnone => findMarker_eq_none_iff.mp hnone h

theorem editForNamed_of_not_begins (h : ¬ d.Begins m) (content : Text) (names : List Text) :
    d.editForNamed m content names = (d.firstNamed names).map fun span => ⟨span, m.wrap content⟩ := by
  rw [editForNamed, findMarker_eq_none_iff.mpr h]

theorem editForNamed_congr {more : List Text} (h : d.firstNamed more = d.firstNamed names)
    (m : Marker) (content : Text) :
    d.editForNamed m content more = d.editForNamed m content names := by
  rw [editForNamed, editForNamed, h]

theorem editForNamed_map_name (content : Text) (locations : List Location) :
    d.editForNamed m content (locations.map Location.name) = .ok (d.editFor m content locations) := by
  rw [editForNamed, editFor, firstNamed_map_name]
  cases d.findMarker m <;> rfl

theorem editForNamed_eq_error_iff {content : Text} {e : UnknownLocation} :
    d.editForNamed m content names = .error e ↔
      ¬ d.Begins m ∧ d.Settles names e.name ∧ ∀ location : Location, e.name ≠ location.name := by
  by_cases hbegins : d.Begins m
  · obtain ⟨span, hfind⟩ := hbegins.exists_findMarker
    simp [editForNamed, hfind, hbegins]
  · rw [editForNamed_of_not_begins hbegins, map_eq_error, firstNamed_eq_error_iff]
    simp [hbegins]

/-- A block that is there is written where it is found, whatever places are named. One that is not goes
in front of the first line, before the first heading of the second level or behind the last line, as
the name that settles the matter says; if there is no such name, behind the last line. There is an error
exactly if the block is not there and that name is none of a place, and the error tells the name. No
other name has a say. The edits that are planned are those that the names of their places give. -/
theorem editForNamed_settled (d : Document) (m : Marker) (content : Text) (names : List Text) :
    (d.Begins m → ∃ span, d.findMarker m = some span ∧
      d.editForNamed m content names = .ok ⟨span, m.wrap content⟩) ∧
    (¬ d.Begins m →
      (d.Settles names Location.top.name →
        d.editForNamed m content names = .ok ⟨Span.before 0, m.wrap content⟩) ∧
      (d.Settles names Location.secondLevel.name → ∃ before t after,
        titles d.page = before ++ t :: after ∧ (∀ u ∈ before, u.level ≠ 2) ∧ t.level = 2 ∧
        d.editForNamed m content names = .ok ⟨Span.before t.index, m.wrap content⟩) ∧
      (d.Settles names Location.bottom.name →
        d.editForNamed m content names = .ok ⟨Span.before d.lineCount, m.wrap content⟩) ∧
      ((¬ ∃ name, d.Settles names name) →
        d.editForNamed m content names = .ok ⟨Span.before d.lineCount, m.wrap content⟩)) ∧
    (∀ e, d.editForNamed m content names = .error e ↔
      ¬ d.Begins m ∧ d.Settles names e.name ∧ ∀ location : Location, e.name ≠ location.name) ∧
    (∀ name more, d.Settles names name → d.Settles more name →
      d.editForNamed m content more = d.editForNamed m content names) ∧
    ∀ locations : List Location, d.editForNamed m content (locations.map Location.name) =
      .ok (d.editFor m content locations) := by
  refine ⟨?_, ?_, ?_, ?_, editForNamed_map_name content⟩
  · intro hbegins
    obtain ⟨span, hfind⟩ := hbegins.exists_findMarker
    exact ⟨span, hfind, by rw [editForNamed, hfind]⟩
  · intro hbegins
    rw [editForNamed_of_not_begins hbegins]
    refine ⟨?_, ?_, ?_, ?_⟩
    · intro h
      rw [h.firstNamed_eq_firstOf]
      rfl
    · intro h
      rw [h.firstNamed_eq_firstOf]
      cases hsecond : d.secondLevel? with
      | none => exact absurd ⟨rfl, secondLevel?_eq_none_iff.mp hsecond⟩ h.not_passesOver
      | some span =>
        obtain ⟨before, t, after, htitles, hbefore, hlevel, rfl⟩ :=
          exists_title_of_secondLevel? hsecond
        refine ⟨before, t, after, htitles, hbefore, hlevel, ?_⟩
        simp [firstOf, Document.find?, hsecond, Except.map]
    · intro h
      rw [h.firstNamed_eq_firstOf]
      rfl
    · intro h
      rw [firstNamed_of_not_settles h]
      rfl
  · intro e
    exact editForNamed_eq_error_iff
  · intro name more hnames hmore
    exact editForNamed_congr (hmore.firstNamed_eq.trans hnames.firstNamed_eq.symm) m content

/-- Without a heading of the second level the name behind that of the place before one settles the
matter, twice passed over or once, as a place or as an error. -/
theorem editForNamed_settled_passing_over :
    ∃ d : Document, d.Reads "# A\r\n### B\n".toList ∧ ¬ d.Begins Marker.toc ∧
      d.Settles ["h2".toList, "h2".toList, "bottom".toList, "middle".toList] "bottom".toList ∧
      d.editForNamed Marker.toc [] ["h2".toList, "h2".toList, "bottom".toList, "middle".toList] =
        .ok ⟨{ start := 3 }, Marker.toc.wrap []⟩ ∧
      d.editForNamed Marker.toc [] ["h2".toList, "middle".toList, "top".toList] =
        .error ⟨"middle".toList⟩ := by
  let d := Load.ofText {} "a.md".toList "# A\r\n### B\n".toList
  have hbegins : ¬ d.Begins Marker.toc := findMarker_eq_none_iff.mp (by decide +kernel)
  have hsecond : d.PassesOver "h2".toList :=
    ⟨rfl, secondLevel?_eq_none_iff.mp (by decide +kernel)⟩
  have hbottom : d.Settles ["h2".toList, "h2".toList, "bottom".toList, "middle".toList]
      "bottom".toList :=
    ⟨["h2".toList, "h2".toList], ["middle".toList], rfl, by simpa using hsecond,
      fun h => absurd h.1 (by decide)⟩
  have hmiddle : d.Settles ["h2".toList, "middle".toList, "top".toList] "middle".toList :=
    ⟨["h2".toList], ["top".toList], rfl, by simpa using hsecond, fun h => absurd h.1 (by decide)⟩
  have hcount : d.lineCount = 2 := by decide +kernel
  obtain ⟨-, hplaces, -, -, -⟩ := editForNamed_settled d Marker.toc []
    ["h2".toList, "h2".toList, "bottom".toList, "middle".toList]
  obtain ⟨-, -, hedit, -⟩ := hplaces hbegins
  obtain ⟨-, -, herror, -, -⟩ := editForNamed_settled d Marker.toc []
    ["h2".toList, "middle".toList, "top".toList]
  refine ⟨d, Load.ofText_reads _ _ _, hbegins, hbottom, ?_, ?_⟩
  · rw [hcount] at hedit
    exact hedit hbottom
  · refine (herror ⟨"middle".toList⟩).mpr ⟨hbegins, hmiddle, ?_⟩
    exact Location.ofName?_eq_none_iff.mp (by decide)

end DocTree.Document
