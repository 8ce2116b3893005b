import DocTree.Proofs.Edit.Apply
import DocTree.Proofs.Plan.Place

/-!
# The first run

A document without blocks gets both: the navigation in front of everything, the table of contents
before its first heading of the second level or else after its last line. Nothing of the text is
taken away, whatever its breaks.
-/
namespace DocTree.Plan

/-- A text with two blocks put into it: one in front, the other before the first heading of the
second level or else at the end. A text that does not end its last line gets a break there. -/
def opened (d : Document) (text nav toc : Text) : Text :=
  nav ++ '\n' ::
    match d.second? with
    | some t =>
      Row.join (text.rows.take t.index) ++ toc ++ '\n' :: Row.join (text.rows.drop t.index)
    | none => if text.EndsLine then text ++ toc ++ ['\n'] else text ++ '\n' :: toc

/-- The rows before a heading and those from it on are the text. -/
theorem join_take_drop (text : Text) (n : Nat) :
    Row.join (text.rows.take n) ++ Row.join (text.rows.drop n) = text := by
  rw [← Row.join_append, List.take_append_drop, Text.join_rows]

variable {d : Document} {text : Text}

/-- The table of contents at its place, as rows. -/
theorem hasRows_apply_toc (hd : d.Reads text) {e : Edit}
    (he : e.span = d.secondLevel?.getD d.bottom) (nav : Text) :
    ∃ rows, ((Draft.ofText text).apply e).HasRows rows ∧
      nav ++ '\n' :: Row.join rows = opened d text nav e.content := by
  have hrows := Draft.hasRows_ofText text
  have hle := text.lineCount_le
  rw [Document.secondLevel?_eq] at he
  cases h : d.second? with
  | some t =>
    have hlt := hd.second?_lt h
    obtain ⟨head, r, tail, hsplit, hhead⟩ :=
      exists_split text.rows (n := t.index) (by rw [hd.lineCount] at hlt; omega)
    have hspan : e.span = Span.before t.index := by simpa [h] using he
    rw [hsplit] at hrows
    refine ⟨_, hrows.insert (by simp [hspan, hhead]) (by simp [hspan]), ?_⟩
    simp [opened, h, hsplit, ← hhead]
  | none =>
    have hspan : e.span = Span.before text.lineCount := by
      simpa [h, Document.bottom, hd.lineCount] using he
    obtain ⟨head, line, hsplit, hline⟩ := text.exists_last_row
    have htext : Row.join head ++ line = text := by
      have := text.join_rows
      rw [hsplit] at this
      simpa using this
    rw [hsplit] at hrows
    by_cases hends : text.EndsLine
    · have hcount : text.lineCount = head.length := by
        rw [text.lineCount_eq, if_pos hends, hsplit]
        simp
      have hempty := hline.mpr hends
      refine ⟨_, hrows.insert (by simp [hspan, hcount]) (by simp [hspan]), ?_⟩
      rw [hempty, List.append_nil] at htext
      simp [opened, h, hends, hempty, htext]
    · have hcount : text.lineCount = head.length + 1 := by
        rw [text.lineCount_eq, if_neg hends, hsplit]
        simp
      refine ⟨_, hrows.append (by simp [hspan, hcount]) (by simp [hspan]), ?_⟩
      have hafter : Row.join head ++ (line ++ '\n' :: e.content) = text ++ '\n' :: e.content := by
        rw [← List.append_assoc, htext]
      simp [opened, h, hends, hafter]

/-- Both blocks go where they were not, the navigation in front. -/
theorem edited_fresh (hd : d.Reads text) (ht : d.findMarker Marker.toc = none)
    (hn : d.findMarker Marker.nav = none) (toc nav : Text) :
    text.edited (fileEdit d toc nav).edits =
      opened d text (Marker.nav.wrap nav) (Marker.toc.wrap toc) := by
  have htoc : (d.editFor Marker.toc toc [.secondLevel, .bottom]).span =
      d.secondLevel?.getD d.bottom := by
    simp [Document.editFor, ht, Document.firstOf_toc]
  have hnav : (d.editFor Marker.nav nav [.top]).span = Span.before 0 := by
    simp [Document.editFor, hn, Document.firstOf_nav]
  obtain ⟨rows, hrows, hjoin⟩ := hasRows_apply_toc hd htoc (Marker.nav.wrap nav)
  have hpos := (d.editFor Marker.toc toc [.secondLevel, .bottom]).span.start_pos
  have horder : Edit.fromLast (fileEdit d toc nav).edits = (fileEdit d toc nav).edits := by
    simp [fileEdit_edits, Edit.fromLast, Edit.insertByStart, hnav]
    omega
  have hall := hrows.insert_first (e := d.editFor Marker.nav nav [.top]) (by simp [hnav])
    (by simp [hnav])
  rw [Text.edited, horder, fileEdit_edits, List.foldl_cons, List.foldl_cons, List.foldl_nil,
    hall.toText]
  simpa [Document.editFor] using hjoin

/-- The first run only inserts. In a document without blocks, whether it stands for itself or for
its directory, the navigation comes first and the table of contents before the first heading of the
second level or else at the end; what stands before that heading and from it on is the text. -/
theorem first_run_inserts (s : Settings) (d : Document) (text : Text) (n : Nav)
    (hd : d.Reads text) (ht : d.findMarker Marker.toc = none)
    (hn : d.findMarker Marker.nav = none) :
    (∀ nav, Render.nav s d.filename n = .ok nav →
      ∃ f, ofDocument s d n = .ok f ∧ text.edited f.edits =
        opened d text (Marker.nav.wrap nav)
          (Marker.toc.wrap (Render.sectionToc d.sections s.tocDepth))) ∧
    (∀ entries toc nav, Render.fileToc s d.filename entries = .ok toc →
      Render.nav s d.filename n = .ok nav →
      ∃ f, ofRoot s d entries n = .ok f ∧ text.edited f.edits =
        opened d text (Marker.nav.wrap nav) (Marker.toc.wrap toc)) ∧
    ∀ i, Row.join (text.rows.take i) ++ Row.join (text.rows.drop i) = text := by
  refine ⟨?_, ?_, join_take_drop text⟩
  · intro nav hnav
    exact ⟨_, ofDocument_eq_ok.mpr ⟨nav, hnav, rfl⟩, edited_fresh hd ht hn _ nav⟩
  · intro entries toc nav htoc hnav
    exact ⟨_, ofRoot_eq_ok.mpr ⟨toc, htoc, nav, hnav, rfl⟩, edited_fresh hd ht hn toc nav⟩

/-- A heading of the second level after a lone carriage return. -/
theorem first_run_inserts_after_return :
    ∃ d f, d.Reads "x\r## h\n".toList ∧ d.findMarker Marker.toc = none ∧
      d.findMarker Marker.nav = none ∧ Render.nav {} d.filename {} = .ok [] ∧
      ofDocument {} d {} = .ok f ∧ Text.edited "x\r## h\n".toList f.edits =
        ("<!-- BEGIN NAV -->\n<!-- END NAV -->\nx\r<!-- BEGIN TOC -->\n" ++
          "<!-- END TOC -->\n## h\n").toList := by
  let d : Document :=
    { filename := "a.md".toList, title := [], page := Markdown.Page.ofText "x\r## h\n".toList
      lineCount := Text.lineCount "x\r## h\n".toList }
  have hd : d.Reads "x\r## h\n".toList := ⟨rfl, rfl⟩
  have ht : d.findMarker Marker.toc = none := by decide +kernel
  have hn : d.findMarker Marker.nav = none := by decide +kernel
  obtain ⟨f, hf, htext⟩ := (first_run_inserts {} d _ {} hd ht hn).1 [] rfl
  refine ⟨d, f, hd, ht, hn, rfl, hf, htext.trans ?_⟩
  decide +kernel

end DocTree.Plan
