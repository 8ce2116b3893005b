import DocTree.Proofs.Markdown.Heading
import DocTree.Proofs.Markdown.Link
import DocTree.Proofs.Render.Cells
import DocTree.Proofs.Render.OneLine

/-!
# Links read back

A link is written as it stands, whatever its path looks like. A reader takes it for a link only if
the path is a target to it; otherwise it shows the brackets. The path may also close the link
early, and what is left of it then stands behind the link.
-/
namespace DocTree

structure Text.IsWord (s : Text) : Prop where
  ne_nil : s ≠ []
  letters : ∀ c ∈ s, c.isAlpha

instance (s : Text) : Decidable s.IsWord :=
  decidable_of_iff (s ≠ [] ∧ s.all Char.isAlpha)
    ⟨fun h => ⟨h.1, List.all_eq_true.mp h.2⟩, fun h => ⟨h.1, List.all_eq_true.mpr h.2⟩⟩

namespace Markdown

variable {c : Char}

/-- No token begins with a letter. -/
theorem isAlpha_of_beginsToken (h : Content.beginsToken c) : c.isAlpha = false := by
  have hmem : c ∈ ['\n', '\\', '`', '[', '!', '<', '&'] := List.contains_iff_mem.mp h
  simp only [List.mem_cons, List.not_mem_nil, or_false] at hmem
  rcases hmem with rfl | rfl | rfl | rfl | rfl | rfl | rfl <;> rfl

theorem isOrdinary_of_isAlpha (h : c.isAlpha) : Content.IsOrdinary c := by
  refine ⟨?_, ?_, ?_, ?_⟩
  · by_contra htoken
    rw [isAlpha_of_beginsToken (by simpa using htoken)] at h
    cases h
  all_goals
    rintro rfl
    cases h

theorem isBlank_of_isAlpha (h : c.isAlpha) : Text.isBlank c = false := by
  have hrange : 65 ≤ c.toNat ∧ c.toNat ≤ 122 := by
    rcases Bool.or_eq_true_iff.mp h with hupper | hlower
    · obtain ⟨hfirst, hlast⟩ := of_decide_eq_true hupper
      exact ⟨UInt32.le_iff_toNat_le.mp hfirst,
        (UInt32.le_iff_toNat_le.mp hlast).trans (by decide)⟩
    · obtain ⟨hfirst, hlast⟩ := Bool.and_eq_true_iff.mp hlower
      exact ⟨le_trans (by decide) (UInt32.le_iff_toNat_le.mp (of_decide_eq_true hfirst)),
        UInt32.le_iff_toNat_le.mp (of_decide_eq_true hlast)⟩
  simp [Text.isBlank, Text.isWhite, Text.isMargin, Text.isSpacing, Text.inRanges]
  omega

theorem trim_eq {p : Char → Bool} {s : Text} (h : ∀ c ∈ s, p c = false) : Text.trim p s = s := by
  have hdrop : ∀ t : Text, (∀ c ∈ t, p c = false) → t.dropWhile p = t := by
    intro t ht
    cases t with
    | nil => rfl
    | cons c t => exact List.dropWhile_cons_of_neg (by simp [ht c (by simp)])
  rw [Text.trim, hdrop s h, hdrop s.reverse fun c hc => h c (List.mem_reverse.mp hc),
    List.reverse_reverse]

/-- A first character that is not dropped stays first. -/
theorem exists_trim {p : Char → Bool} (h : p c = false) (s : Text) :
    ∃ t, Text.trim p (c :: s) = c :: t := by
  rw [Text.trim, List.dropWhile_cons_of_neg (by simp [h]), List.reverse_cons, List.dropWhile_append]
  split
  · exact ⟨[], by simp [h]⟩
  · exact ⟨(s.reverse.dropWhile p).reverse, by simp⟩

theorem leaves_text {s t : Text} (h : Text.trim Text.isBlank s = c :: t) (rest : List Inline) :
    Inline.leaves (.text s :: rest) = (c :: t) :: Inline.leaves rest :=
  List.filterMap_cons_some (by simp only [h])

theorem leaves_linked {label : Text} (h : label.IsWord) (more : List Inline) :
    Inline.leaves (Content.enclosed .link [.text label] ++ more) = label :: Inline.leaves more := by
  obtain ⟨c, rest, rfl⟩ := List.exists_cons_of_ne_nil h.ne_nil
  have htrim := trim_eq fun c hc => isBlank_of_isAlpha (h.letters c hc)
  exact leaves_text htrim (.closes .link :: more)

theorem plainText_cons_eq_iff {leaf : Text} {leaves : List Text} :
    plainText (leaf :: leaves) = leaf ↔ leaves = [] := by
  constructor
  · intro h
    cases leaves with
    | nil => rfl
    | cons next leaves =>
      have := congrArg List.length h
      rw [plainText, List.intercalate_cons_cons] at this
      simp at this
  · rintro rfl
    simp [plainText]

theorem plainText_text (s : Text) (more : List Inline) :
    '[' ∈ plainText (Inline.leaves (.text ('[' :: s) :: more)) := by
  obtain ⟨t, ht⟩ := exists_trim (p := Text.isBlank) (c := '[') rfl s
  rw [leaves_text ht, plainText]
  cases Inline.leaves more <;> simp

end Markdown

namespace Render

open Markdown

variable {title path : Text}

theorem link_eq_linked (title path : Text) :
    link title path = Content.linked title (path ++ [')']) := by
  simp [link, Content.linked]

theorem link_injective {p q : Text} (h : link title p = link title q) : p = q :=
  List.append_cancel_left (List.append_cancel_right h)

theorem withoutNull_link (h : title.IsWord) (path : Text) :
    Line.withoutNull (link title path) = link title (Line.withoutNull path) := by
  have htitle : Line.withoutNull title = title := by
    refine (List.map_congr_left fun c hc => if_neg ?_).trans (List.map_id' title)
    rintro rfl
    exact absurd (h.letters _ hc) (by decide)
  have happend : ∀ s t, Line.withoutNull (s ++ t) = Line.withoutNull s ++ Line.withoutNull t :=
    fun s t => List.map_append
  have hopen : Line.withoutNull ('[' :: title) = '[' :: title := congrArg ('[' :: ·) htitle
  rw [link, happend, happend, happend, hopen]
  rfl

/-- The content of a link whose title is a word. It is the link alone, or a link to the first part
of the path with something behind it, or it begins with a bracket. -/
theorem read_link (h : title.IsWord) (path : Text) :
    IsTarget path ∧ Content.read [] (link title path) = Content.enclosed .link [.text title] ∨
    ¬ IsTarget path ∧
      ((∃ front back more, path = front ++ ')' :: back ∧ IsTarget front ∧ more ≠ [] ∧
        Content.read [] (link title path) = Content.enclosed .link [.text title] ++ more) ∨
      ∃ text more, Content.read [] (link title path) = .text ('[' :: text) :: more) := by
  have hordinary : ∀ c ∈ title, Content.IsOrdinary c :=
    fun c hc => isOrdinary_of_isAlpha (h.letters c hc)
  rw [link_eq_linked]
  by_cases hclosed : ∃ rest, Content.Target.read (path ++ [')']) = .closed rest
  · obtain ⟨rest, hread⟩ := hclosed
    obtain ⟨more, hcontent, hmore⟩ := Content.read_linked hordinary h.ne_nil hread
    rcases List.eq_nil_or_concat rest with rfl | ⟨back, last, rfl⟩
    · rw [hmore.mpr rfl, List.append_nil] at hcontent
      exact .inl ⟨Content.Target.isTarget_iff.mpr hread, hcontent⟩
    · refine .inr ⟨fun htarget => ?_, .inl ?_⟩
      · rw [Content.Target.isTarget_iff, hread] at htarget
        simp at htarget
      · obtain ⟨front, hfront, heq⟩ := Content.Target.read_eq_closed_iff.mp hread
        have hpath : path = front ++ ')' :: back := by
          rw [List.concat_eq_append, ← List.cons_append, ← List.append_assoc] at heq
          exact (List.append_inj' heq rfl).1
        exact ⟨front, back, more, hpath, hfront, by simp [hmore], hcontent⟩
  · refine .inr ⟨fun htarget => hclosed ⟨[], Content.Target.isTarget_iff.mp htarget⟩, .inr ?_⟩
    exact Content.read_unlinked hordinary fun rest hread => hclosed ⟨rest, hread⟩

theorem ofText_link (h : title.IsWord) (hpath : (link title path).Unbroken) :
    Page.ofText ("# ".toList ++ link title path) =
      [⟨0, .heading 1 (Content.read [] (link title (Line.withoutNull path)))⟩] := by
  rw [Page.ofText_heading hpath, withoutNull_link h]
  have htext : headingText (' ' :: link title (Line.withoutNull path)) =
      link title (Line.withoutNull path) := by
    rw [link]
    exact headingText_eq rfl rfl (by decide) _
  rw [htext]

variable {s : Settings} {filename : Text} {o : Entry}

/-- There is a link to every entry that has a path. -/
theorem exists_entryLink (s : Settings) (filename : Text) (hname : o.filename ≠ []) :
    ∃ path, entryLink s filename o = .ok (link o.title path) := by
  obtain ⟨path, hpath⟩ : ∃ path, target s filename o = .ok path := by
    unfold target
    dsimp only
    rw [if_neg (by simpa using hname)]
    exact ⟨_, rfl⟩
  exact ⟨path, entryLink_eq_ok.mpr ⟨path, hpath, rfl⟩⟩

/-- A heading that is made of the link to an entry whose title is a word reads as that link alone
exactly if the path of the link is a target. Its text is the title exactly if the path is a target,
or closes the link early and goes on with something that shows no text. -/
theorem entryLink_read_iff (filename : Text) (hs : s.Unbroken) (hname : o.filename ≠ [])
    (hunbroken : o.filename.Unbroken) (htitle : o.title.IsWord) :
    ∃ path content, entryLink s filename o = .ok (link o.title path) ∧
      Page.ofText ("# ".toList ++ link o.title path) = [⟨0, .heading 1 content⟩] ∧
      (content = Content.enclosed .link [.text o.title] ↔ IsTarget (Line.withoutNull path)) ∧
      (plainText (Inline.leaves content) = o.title ↔
        IsTarget (Line.withoutNull path) ∨ ∃ front back more,
          Line.withoutNull path = front ++ ')' :: back ∧ IsTarget front ∧
          content = Content.enclosed .link [.text o.title] ++ more ∧
          Inline.leaves more = []) := by
  obtain ⟨path, hlink⟩ := exists_entryLink s filename hname
  have htitleUnbroken : o.title.Unbroken := by
    constructor <;> exact fun hc => absurd (htitle.letters _ hc) (by decide)
  have hpage := ofText_link htitle (entryLink_unbroken hs ⟨htitleUnbroken, hunbroken⟩ hlink)
  refine ⟨path, _, hlink, hpage, ?_⟩
  have hshown : ∀ more, plainText (Inline.leaves (Content.enclosed .link [.text o.title] ++ more)) =
      o.title ↔ Inline.leaves more = [] := by
    intro more
    rw [leaves_linked htitle, plainText_cons_eq_iff]
  rcases read_link htitle (Line.withoutNull path) with
    ⟨htarget, hcontent⟩ | ⟨htarget, ⟨front, back, more, hpath, hfront, hmore, hcontent⟩ |
      ⟨text, more, hcontent⟩⟩
  · have htext := (hshown []).mpr rfl
    rw [List.append_nil, ← hcontent] at htext
    exact ⟨iff_of_true hcontent htarget, iff_of_true htext (.inl htarget)⟩
  · rw [hcontent]
    refine ⟨iff_of_false (by simpa using hmore) htarget, ?_⟩
    rw [hshown]
    constructor
    · exact fun hnone => .inr ⟨front, back, more, hpath, hfront, rfl, hnone⟩
    · rintro (h | ⟨-, -, other, -, -, heq, hnone⟩)
      · exact absurd h htarget
      · rwa [List.append_cancel_left heq]
  · rw [hcontent]
    refine ⟨iff_of_false (by simp [Content.enclosed]) htarget, iff_of_false ?_ ?_⟩
    · intro heq
      have hbracket := plainText_text text more
      rw [heq] at hbracket
      exact absurd (htitle.letters _ hbracket) (by decide)
    · rintro (h | ⟨-, -, other, -, -, heq, -⟩)
      · exact htarget h
      · simp [Content.enclosed] at heq

/-- A path with balanced parentheses, seen from a document one directory further down. -/
theorem entryLink_read_parentheses :
    let s : Settings := { workingDirectory := ["w".toList] }
    let o : Entry := .directory "docs/a(1).md".toList "Notes".toList [] none
    s.Unbroken ∧ o.filename ≠ [] ∧ o.filename.Unbroken ∧ o.title.IsWord ∧
      ∃ path content, entryLink s "docs/b/c.md".toList o = .ok (link o.title path) ∧
        path = "../a(1).md".toList ∧
        Page.ofText ("# ".toList ++ link o.title path) = [⟨0, .heading 1 content⟩] ∧
        content = Content.enclosed .link [.text o.title] ∧
        plainText (Inline.leaves content) = o.title := by
  intro s o
  have hs : s.Unbroken := by decide
  have hname : o.filename ≠ [] := by decide
  have hunbroken : o.filename.Unbroken := by decide
  have htitle : o.title.IsWord := by decide
  obtain ⟨path, content, hlink, hpage, hcontent, htext⟩ :=
    entryLink_read_iff "docs/b/c.md".toList hs hname hunbroken htitle
  have hpath : path = "../a(1).md".toList := by
    have hlinkThere : entryLink s "docs/b/c.md".toList o =
        .ok (link o.title "../a(1).md".toList) := by decide
    exact link_injective (Except.ok.inj (hlink.symm.trans hlinkThere))
  have htarget : IsTarget (Line.withoutNull path) := by
    rw [hpath]
    decide +kernel
  exact ⟨hs, hname, hunbroken, htitle, path, content, hlink, hpath, hpage, hcontent.mpr htarget,
    htext.mpr (.inl htarget)⟩

/-- A path that closes the link early and goes on with a link that shows nothing. -/
example : (Page.ofText "# [t](a)[](b)".toList).titles = [⟨0, 1, "t".toList⟩] := by
  decide +kernel

/-- A path with a space in it makes no link: the heading shows the brackets. -/
theorem entryLink_not_read :
    let o : Entry := .directory "a b.md".toList "t".toList [] none
    o.filename.Unbroken ∧ o.title.IsWord ∧
      entryLink {} "c.md".toList o = .ok "[t](a b.md)".toList ∧
      (Page.ofText ("# ".toList ++ "[t](a b.md)".toList)).titles =
        [⟨0, 1, "[t](a b.md)".toList⟩] := by
  decide +kernel

end Render

end DocTree
