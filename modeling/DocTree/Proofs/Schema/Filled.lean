import DocTree.Proofs.Schema.Declared

/-!
# Filled forms

The filled form of a value agrees with it on the keys it has and has the defaults for the others. It
does not show the tree of a document, so that of a sound value is sound once trees are supplied to its
records, and as it stands if there was no tree to leave out. Filling twice is filling once.
-/
namespace DocTree.Schema

/-- The second value is the first with its defaults filled in: under each declared key that is not
hidden it has what the first has there, itself filled, else the default; it has no other keys. -/
inductive Filled : Kind → Value → Value → Prop
  | scalar {k v} (h : k.IsScalar) (shaped : Shaped k v) : Filled k v v
  | null {k} : Filled (.orNull k) .null .null
  | some {k v w} (hv : v ≠ .null) (h : Filled k v w) : Filled (.orNull k) v w
  | list {k} {items items' : List Value} (length : items'.length = items.length)
      (item : ∀ (i : Nat) v w, items[i]? = .some v → items'[i]? = .some w → Filled k v w) :
      Filled (.list k) (.list items) (.list items')
  | record {f fields fields'} (names : fields'.map Prod.fst = f.shown.map fun key => key.name.toList)
      (kept : ∀ key ∈ f.shown, ∀ v w, fields.lookup key.name.toList = .some v →
        fields'.lookup key.name.toList = .some w → Filled key.kind v w)
      (added : ∀ key ∈ f.shown, fields.lookup key.name.toList = none →
        fields'.lookup key.name.toList = key.default) :
      Filled (.record f) (.record fields) (.record fields')
  | entry {f v w} (hf : Form.ofTag? v = .some f) (h : Filled (.record f) v w) : Filled .entry v w

theorem Filled.eq_of_scalar {k : Kind} {v w : Value} (hk : k.IsScalar) (h : Filled k v w) : w = v := by
  cases h with
  | scalar => rfl
  | _ => cases hk

theorem Filled.eq_null {k : Kind} {w : Value} (h : Filled (.orNull k) .null w) : w = .null := by
  cases h with
  | scalar => rfl
  | null => rfl
  | some hv => exact absurd rfl hv

inductive IsDefault : Kind → Value → Prop
  | tag {name : String} : IsDefault (.tag name) (.text name.toList)
  | list {k} : IsDefault (.list k) (.list [])
  | null {k} : IsDefault (.orNull k) .null
  | zero : IsDefault (.number (some 0) none) (.number 0)

theorem isDefault (f : Form) : ∀ key ∈ f.keys, ∀ d, key.default = some d → IsDefault key.kind d := by
  cases f <;> simp [Form.keys, Key.start, Key.stop, Key.text, Key.list, Key.tag, Key.tree,
    IsDefault.list, IsDefault.null, IsDefault.zero] <;> exact .tag

namespace IsDefault

variable {k : Kind} {d : Value}

/-- No default has parts. -/
theorem throughout {P : Kind → Value → Prop} (h : IsDefault k d) (hd : P k d) : Throughout P k d := by
  cases h with
  | tag => exact (throughout_scalar .tag).mpr hd
  | list => exact throughout_list.mpr ⟨hd, nofun⟩
  | null => exact throughout_null.mpr hd
  | zero => exact (throughout_scalar .number).mpr hd

theorem shaped (h : IsDefault k d) : Shaped k d := by
  cases h <;> trivial

/-- Every default passes its own check. -/
theorem faultless (h : IsDefault k d) : ¬Fault k d := by
  cases h with
  | tag => exact (sound_tag.mpr rfl).self
  | list => exact nofun
  | null => exact nofun
  | zero => exact (sound_number.mpr ⟨by simp, by simp⟩).self

theorem withTree_eq (h : IsDefault k d) (page : Markdown.Page) : d.withTree page = d := by
  cases h <;> rfl

theorem eq_of_filled (h : IsDefault k d) {w : Value} (hw : Filled k d w) : w = d := by
  cases h with
  | tag => exact hw.eq_of_scalar .tag
  | zero => exact hw.eq_of_scalar .number
  | list =>
    cases hw with
    | scalar => rfl
    | list length => rw [List.eq_nil_of_length_eq_zero length]
  | null => exact hw.eq_null

end IsDefault

/-- Two lists of named values are the same if they have the same names, each once, and the same value
for each name. -/
theorem eq_of_lookup_eq {l l' : List (Text × Value)} (hnodup : (l.map Prod.fst).Nodup)
    (names : l'.map Prod.fst = l.map Prod.fst)
    (h : ∀ name ∈ l.map Prod.fst, l'.lookup name = l.lookup name) : l' = l := by
  induction l generalizing l' with
  | nil => simpa using names
  | cons p l ih =>
    obtain ⟨name, v⟩ := p
    match l', names with
    | (name', v') :: l', names =>
      obtain ⟨rfl, hnames⟩ : name' = name ∧ l'.map Prod.fst = l.map Prod.fst := List.cons.inj names
      obtain ⟨hnot, hnodup⟩ := List.nodup_cons.mp hnodup
      have hv : v' = v := by simpa using h name' (by simp)
      have hrest : l' = l := by
        refine ih hnodup hnames fun other hother => ?_
        have hne : (other == name') = false := beq_eq_false_iff_ne.mpr fun heq => hnot (heq ▸ hother)
        have hother' := h other (List.mem_cons_of_mem _ hother)
        simpa only [List.lookup_cons, hne] using hother'
      rw [hv, hrest]

theorem Form.ofTag?_eq_some {f : Form} {v : Value} (h : Form.ofTag? v = some f) :
    ∃ fields tag, v = .record fields ∧ fields.lookup "type".toList = some (.text tag) ∧
      ∃ name, Key.tag name ∈ f.shown := by
  unfold Form.ofTag? at h
  split at h
  · split at h
    · refine ⟨_, _, rfl, ‹_›, ?_⟩
      split at h
      · cases h
        exact ⟨"directory", by simp [Form.shown, Form.keys, Key.tag]⟩
      · split at h
        · cases h
          exact ⟨"document", by simp [Form.shown, Form.keys, Key.tag]⟩
        · cases h
    · cases h
  · cases h

section withTree

variable {page : Markdown.Page} {k : Kind} {v : Value}

theorem withTree_list (items : List Value) :
    (Value.list items).withTree page = .list (items.map (Value.withTree page)) := by
  rw [Value.withTree]
  congr 1
  induction items with
  | nil => rfl
  | cons v items ih => rw [Value.itemsWithTree, ih, List.map_cons]

theorem lookup_withTree {name : Text} (h : name ≠ "tree".toList) (fields : List (Text × Value)) :
    (("tree".toList, .tree page) :: Value.fieldsWithTree page fields).lookup name =
      (fields.lookup name).map (Value.withTree page) := by
  rw [List.lookup_cons, beq_eq_false_iff_ne.mpr h]
  induction fields with
  | nil => rfl
  | cons p fields ih =>
    obtain ⟨name', v⟩ := p
    rw [Value.fieldsWithTree, List.lookup_cons, List.lookup_cons]
    cases name == name' with
    | true => rfl
    | false => exact ih

theorem ofTag?_withTree (v : Value) : Form.ofTag? (v.withTree page) = Form.ofTag? v := by
  cases v with
  | record fields =>
    simp only [Value.withTree, Form.ofTag?, lookup_withTree (show "type".toList ≠ _ by decide)]
    cases fields.lookup "type".toList with
    | none => rfl
    | some tag => cases tag <;> rfl
  | list => rw [withTree_list]; rfl
  | _ => rfl

theorem lookup_number_of_withTree {fields : List (Text × Value)} {name : Text} {n : Int}
    (h : (fields.lookup name).map (Value.withTree page) = some (.number n)) :
    fields.lookup name = some (.number n) := by
  obtain ⟨v, hv, hn⟩ := Option.map_eq_some_iff.mp h
  cases v <;> simp_all [Value.withTree]

theorem shaped_withTree : Shaped k (v.withTree page) ↔ Shaped k v := by
  cases v with
  | record fields =>
    cases k with
    | entry =>
      simp only [Value.withTree, Shaped, lookup_withTree (show "type".toList ≠ _ by decide)]
      cases fields.lookup "type".toList with
      | none => simp
      | some tag => cases tag <;> simp [Value.withTree]
    | _ => rfl
  | list => rw [withTree_list]; cases k <;> rfl
  | _ => rfl

theorem Shaped.withTree_eq (hk : k.IsScalar) (h : Shaped k v) : v.withTree page = v := by
  cases v with
  | list | record => cases hk <;> exact h.elim
  | _ => rfl

/-- The parts of a value with trees supplied are those of the value, with trees supplied, and a tree. -/
theorem part_withTree {k' : Kind} {v' : Value} (h : Part (k, v.withTree page) (k', v')) :
    (k' = .tree ∧ v' = .tree page) ∨ ∃ u, v' = u.withTree page ∧ Part (k, v) (k', u) := by
  generalize hw : v.withTree page = w at h
  cases h with
  | some hne =>
    refine .inr ⟨v, hw.symm, .some fun hv => ?_⟩
    subst hv
    exact hne hw.symm
  | item hmem =>
    cases v with
    | list items =>
      rw [withTree_list] at hw
      cases hw
      obtain ⟨u, hu, rfl⟩ := List.mem_map.mp hmem
      exact .inr ⟨u, rfl, .item hu⟩
    | _ => cases hw
  | key hkey hlookup =>
    cases v with
    | record fields =>
      cases hw
      obtain rfl | ⟨-, hne⟩ := Form.eq_tree_or_mem_shown hkey
      · cases hlookup
        exact .inl ⟨rfl, rfl⟩
      · rw [lookup_withTree hne] at hlookup
        obtain ⟨u, hu, rfl⟩ := Option.map_eq_some_iff.mp hlookup
        exact .inr ⟨u, rfl, .key hkey hu⟩
    | list => rw [withTree_list] at hw; cases hw
    | _ => cases hw
  | entry hf =>
    subst hw
    exact .inr ⟨v, rfl, .entry (ofTag?_withTree v ▸ hf)⟩

theorem reaches_withTree {q : Kind × Value}
    (hr : Relation.ReflTransGen Part (k, v.withTree page) q) :
    q = (.tree, .tree page) ∨
      ∃ u, q.2 = u.withTree page ∧ Relation.ReflTransGen Part (k, v) (q.1, u) := by
  induction hr with
  | refl => exact .inr ⟨v, rfl, .refl⟩
  | @tail p q _ hpart ih =>
    obtain ⟨k', v'⟩ := p
    obtain htree | ⟨u, rfl, hr⟩ := ih
    · cases htree
      cases hpart
    · obtain ⟨hk, hv⟩ | ⟨u', hu', hpart'⟩ := part_withTree hpart
      · exact .inl (Prod.ext hk hv)
      · exact .inr ⟨u', hu', hr.tail hpart'⟩

theorem throughout_withTree {P : Kind → Value → Prop} (tree : P .tree (.tree page))
    (h : Throughout (fun k v => P k (v.withTree page)) k v) : Throughout P k (v.withTree page) := by
  intro k' v' hr
  obtain htree | ⟨u, rfl, hu⟩ := reaches_withTree hr
  · cases htree
    exact tree
  · exact h k' u hu

theorem typed_withTree (page : Markdown.Page) (hv : Typed k v) : Typed k (v.withTree page) :=
  throughout_withTree trivial fun k' v' hr => shaped_withTree.mpr (hv k' v' hr)

end withTree

/-- A value that holds no tree. -/
inductive Treeless : Value → Prop
  | null : Treeless .null
  | bool {b} : Treeless (.bool b)
  | number {n} : Treeless (.number n)
  | text {s} : Treeless (.text s)
  | list {items} (h : ∀ v ∈ items, Treeless v) : Treeless (.list items)
  | record {fields} (h : ∀ p ∈ fields, Treeless p.2) : Treeless (.record fields)

theorem Treeless.part {k k' : Kind} {v v' : Value} (hv : Treeless v) (h : Part (k, v) (k', v')) :
    Treeless v' := by
  cases h with
  | some | entry => exact hv
  | item hmem =>
    cases hv with
    | list h => exact h _ hmem
  | key _ hlookup =>
    cases hv with
    | record h =>
      obtain ⟨before, after, rfl, -⟩ := List.lookup_eq_some_iff.mp hlookup
      exact h _ (List.mem_append_right before List.mem_cons_self)

/-- Nothing in it is declared to be a tree. -/
theorem Treeless.throughout {k : Kind} {v : Value} (hv : Treeless v) (htyped : Typed k v) :
    Throughout (fun k _ => k ≠ .tree) k v := by
  rintro k' v' hr rfl
  have htreeless : ∀ {q : Kind × Value}, Relation.ReflTransGen Part (k, v) q → Treeless q.2 := by
    intro q hr
    induction hr with
    | refl => exact hv
    | tail _ hpart ih => exact ih.part hpart
  have hshape := htyped _ _ hr
  cases htreeless hr <;> exact hshape

namespace Filled

variable {k : Kind} {f : Form} {v w : Value} {fields fields' : List (Text × Value)}
  {page : Markdown.Page}

theorem exists_lookup (names : fields'.map Prod.fst = f.shown.map fun key => key.name.toList)
    {key : Key} (hkey : key ∈ f.shown) : ∃ w, fields'.lookup key.name.toList = .some w := by
  rw [← Option.isSome_iff_exists, List.lookup_isSome_iff]
  have hmem : key.name.toList ∈ fields'.map Prod.fst := names ▸ List.mem_map_of_mem hkey
  simpa using hmem

/-- What is written is under keys that are not hidden. -/
theorem mem_shown_of_lookup (names : fields'.map Prod.fst = f.shown.map fun key => key.name.toList)
    {key : Key} (hkey : key ∈ f.keys) (hw : fields'.lookup key.name.toList = .some w) :
    key ∈ f.shown := by
  have hmem : key.name.toList ∈ fields'.map Prod.fst := by
    have := List.lookup_isSome_iff.mp (Option.isSome_of_mem hw)
    simpa using this
  obtain ⟨key', hkey', hname⟩ := List.mem_map.mp (names ▸ hmem)
  rwa [← List.inj_on_of_nodup_map f.keys_nodup (Form.mem_keys_of_mem_shown hkey') hkey hname]

theorem eq_of_orNull (hk : k.IsScalar) (h : Filled (.orNull k) v w) : w = v := by
  cases h with
  | scalar => rfl
  | null => rfl
  | some _ h => exact h.eq_of_scalar hk

/-- Filling does not change what an entry is. -/
theorem ofTag? (hf : Form.ofTag? v = .some f) (h : Filled (.record f) v w) :
    Form.ofTag? w = .some f := by
  obtain ⟨fields, tag, rfl, htag, name, hkey⟩ := Form.ofTag?_eq_some hf
  cases h with
  | scalar hk => cases hk
  | record names kept _ =>
    obtain ⟨w, hw⟩ := exists_lookup names hkey
    rw [(kept _ hkey _ _ htag hw).eq_of_scalar .tag] at hw
    simp only [Form.ofTag?, htag] at hf
    simpa only [Form.ofTag?, show List.lookup "type".toList _ = _ from hw] using hf

/-- What the filled form has of itself if something holds throughout the value, and the defaults have
throughout, the filled form has at every depth. -/
theorem throughout {P Q : Kind → Value → Prop}
    (self : ∀ {k v w}, Filled k v w → Throughout P k v → Q k w)
    (defaults : ∀ {f : Form}, ∀ key ∈ f.keys, ∀ d, key.default = .some d → Throughout Q key.kind d)
    (h : Filled k v w) (hP : Throughout P k v) : Throughout Q k w := by
  induction h with
  | scalar hk shaped => exact (throughout_scalar hk).mpr (self (.scalar hk shaped) hP)
  | null => exact throughout_null.mpr (self .null hP)
  | @some k v w hv h ih =>
    have hself := self (.some hv h) hP
    -- a kind may allow null twice over, so the filled value can be null as well
    by_cases hw : w = .null
    · subst hw
      exact throughout_null.mpr hself
    · exact (throughout_orNull hw).mpr ⟨hself, ih ((throughout_orNull hv).mp hP).2⟩
  | @list k items items' length item ih =>
    refine throughout_list.mpr ⟨self (.list length item) hP, fun w hw => ?_⟩
    obtain ⟨i, hi, rfl⟩ := List.getElem_of_mem hw
    have hv := List.getElem?_eq_getElem (length ▸ hi : i < items.length)
    exact ih i _ _ hv (List.getElem?_eq_getElem hi)
      ((throughout_list.mp hP).2 _ (List.mem_of_getElem? hv))
  | @record f fields fields' names kept added ih =>
    refine throughout_record.mpr ⟨self (.record names kept added) hP, fun key hkey w hw => ?_⟩
    have hshown := mem_shown_of_lookup names hkey hw
    cases hv : fields.lookup key.name.toList with
    | none => exact defaults key hkey w (added key hshown hv ▸ hw)
    | some v => exact ih key hshown v w hv hw ((throughout_record.mp hP).2 key hkey v hv)
  | @entry f v w hf h ih =>
    exact (throughout_entry (h.ofTag? hf)).mpr
      ⟨self (.entry hf h) hP, ih ((throughout_entry hf).mp hP).2⟩

theorem typed (h : Filled k v w) (hv : Typed k v) : Typed k w := by
  refine h.throughout (fun {k v w} h hv => ?_) (fun key hkey d hd => ?_) hv
  · cases h with
    | scalar _ shaped => exact shaped
    | null | some | list | record => trivial
    | entry hf h =>
      obtain ⟨fields, tag, rfl, htag, -⟩ := Form.ofTag?_eq_some (h.ofTag? hf)
      intro v hv
      rw [htag] at hv
      exact ⟨tag, (Option.some.inj hv).symm⟩
  · have hdefault := isDefault _ key hkey d hd
    exact hdefault.throughout hdefault.shaped

/-- A range of lines that was in order is in order when it is filled: both numbers come from the value
itself, as no default is a number there. -/
theorem ordered (hf : f.isRange) (h : Filled (.record f) (.record fields) (.record fields'))
    (hv : Ordered fields) : Ordered fields' := by
  intro m n hm hn
  obtain ⟨hstart, hstop⟩ := Form.mem_shown_of_isRange hf
  cases h with
  | scalar hk => cases hk
  | record names kept added =>
    cases hm₀ : fields.lookup Key.start.name.toList with
    | none => exact absurd (hm.symm.trans (added _ hstart hm₀)) nofun
    | some v₁ =>
      cases hn₀ : fields.lookup Key.stop.name.toList with
      | none => exact absurd (hn.symm.trans (added _ hstop hn₀)) nofun
      | some v₂ =>
        rw [← (kept _ hstart _ _ hm₀ hm).eq_of_scalar .number] at hm₀
        rw [← (kept _ hstop _ _ hn₀ hn).eq_of_orNull .number] at hn₀
        exact hv m n hm₀ hn₀

/-- Filling brings no fault into a value in which there is no tree to leave out. -/
theorem faultless (h : Filled k v w) (hv : Throughout (fun k v => ¬Fault k v ∧ k ≠ .tree) k v) :
    ¬Fault k w := by
  cases h with
  | scalar => exact hv.self.1
  | null | some | list => nofun
  | entry hf h => exact fun | .untagged hnone => by simp [h.ofTag? hf] at hnone
  | @record f fields fields' names kept added =>
    obtain ⟨hrequired, hord⟩ := faultless_record.mp hv.self.1
    refine faultless_record.mpr ⟨fun key hkey hd => ?_,
      fun hf => ordered hf (.record names kept added) (hord hf)⟩
    obtain rfl | ⟨hshown, -⟩ := Form.eq_tree_or_mem_shown hkey
    · obtain ⟨tree, htree⟩ := Option.ne_none_iff_exists'.mp (hrequired _ hkey rfl)
      exact absurd rfl (hv.part (.key hkey htree)).self.2
    · obtain ⟨w, hw⟩ := exists_lookup names hshown
      simp [hw]

/-- With trees supplied, filling brings no fault into a value. -/
theorem faultless_withTree (h : Filled k v w) (hv : ¬Fault k v) : ¬Fault k (w.withTree page) := by
  cases h with
  | scalar hk shaped => rwa [shaped.withTree_eq hk]
  | null | some | list => nofun
  | entry hf h =>
    exact fun | .untagged hnone => by simp [ofTag?_withTree, h.ofTag? hf] at hnone
  | @record f fields fields' names kept added =>
    obtain ⟨hrequired, hord⟩ := faultless_record.mp hv
    refine faultless_record.mpr ⟨fun key hkey hd => ?_, fun hf m n hm hn => ?_⟩
    · obtain rfl | ⟨hshown, hne⟩ := Form.eq_tree_or_mem_shown hkey
      · exact nofun
      · obtain ⟨w, hw⟩ := exists_lookup names hshown
        rw [lookup_withTree hne, hw]
        exact nofun
    · rw [lookup_withTree (by decide)] at hm hn
      refine ordered hf (.record names kept added) (hord hf) m n ?_ ?_
      · exact lookup_number_of_withTree hm
      · exact lookup_number_of_withTree hn

theorem sound (h : Filled k v w) (hv : Sound k v) (htree : Throughout (fun k _ => k ≠ .tree) k v) :
    Sound k w := by
  refine h.throughout faultless (fun key hkey d hd => ?_) fun k' v' hr => ⟨hv k' v' hr, htree k' v' hr⟩
  have hdefault := isDefault _ key hkey d hd
  exact hdefault.throughout hdefault.faultless

theorem sound_withTree (h : Filled k v w) (page : Markdown.Page) (hv : Sound k v) :
    Sound k (w.withTree page) := by
  refine throughout_withTree nofun (h.throughout (fun h hv => faultless_withTree h hv.self) ?_ hv)
  intro f key hkey d hd
  have hdefault := isDefault f key hkey d hd
  refine hdefault.throughout ?_
  rw [hdefault.withTree_eq]
  exact hdefault.faultless

/-- What is filled stays as it is when filled again. -/
theorem eq_of_filled {w' : Value} (h : Filled k v w) (h' : Filled k w w') : w' = w := by
  induction h generalizing w' with
  | scalar hk => exact h'.eq_of_scalar hk
  | null => exact h'.eq_null
  | some _ _ ih =>
    cases h' with
    | scalar => rfl
    | null => rfl
    | some _ h' => exact ih h'
  | @list k items items' length item ih =>
    cases h' with
    | scalar => rfl
    | @list _ _ items'' length' item' =>
      congr 1
      refine List.ext_getElem length' fun i hi hi' => ?_
      have hw := List.getElem?_eq_getElem hi'
      exact ih i _ _ (List.getElem?_eq_getElem (length ▸ hi')) hw
        (item' i _ _ hw (List.getElem?_eq_getElem hi))
  | @record f fields fields' names kept added ih =>
    cases h' with
    | scalar => rfl
    | @record _ _ fields'' names' kept' added' =>
      congr 1
      refine eq_of_lookup_eq (names ▸ f.shown_nodup) (names'.trans names.symm) fun name hname => ?_
      rw [names, List.mem_map] at hname
      obtain ⟨key, hkey, rfl⟩ := hname
      obtain ⟨w, hw⟩ := exists_lookup names hkey
      obtain ⟨w', hw'⟩ := exists_lookup names' hkey
      have heq : w' = w := by
        cases hv : fields.lookup key.name.toList with
        | some v => exact ih key hkey v w hv hw (kept' key hkey w w' hw hw')
        | none =>
          have hdefault := isDefault f key (Form.mem_keys_of_mem_shown hkey) w
            (added key hkey hv ▸ hw)
          exact hdefault.eq_of_filled (kept' key hkey w w' hw hw')
      rw [hw, hw', heq]
  | entry hf h ih =>
    cases h' with
    | scalar => rfl
    | entry hf' h' =>
      rw [h.ofTag? hf] at hf'
      cases hf'
      exact ih h'

/-- The trees that a value has are not seen in its filled form. -/
theorem of_withTree (h : Filled k (v.withTree page) w) : Filled k v w := by
  generalize hu : v.withTree page = u at h
  induction h generalizing v with
  | scalar hk shaped =>
    subst hu
    have hv := shaped_withTree.mp shaped
    rw [hv.withTree_eq hk]
    exact .scalar hk hv
  | null =>
    cases v with
    | null => exact .null
    | _ => cases hu
  | some hne _ ih =>
    subst hu
    refine .some (fun hv => ?_) (ih rfl)
    subst hv
    exact hne rfl
  | @list k items items' length item ih =>
    cases v with
    | list items₀ =>
      rw [withTree_list] at hu
      cases hu
      rw [List.length_map] at length
      refine .list length fun i v w hv hw => ih i _ w ?_ hw rfl
      rw [List.getElem?_map, hv, Option.map_some]
    | _ => cases hu
  | @record f fields fields' names kept added ih =>
    cases v with
    | record fields₀ =>
      cases hu
      refine .record names (fun key hkey v w hv hw => ih key hkey _ w ?_ hw rfl)
        fun key hkey hnone => added key hkey ?_
      · rw [lookup_withTree (Form.ne_tree_of_mem_shown hkey), hv, Option.map_some]
      · rw [lookup_withTree (Form.ne_tree_of_mem_shown hkey), hnone, Option.map_none]
    | list => rw [withTree_list] at hu; cases hu
    | _ => cases hu
  | entry hf _ ih =>
    subst hu
    exact .entry (ofTag?_withTree _ ▸ hf) (ih rfl)

end Filled

end DocTree.Schema
