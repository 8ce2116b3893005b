import DocTree.Proofs.Schema.Filled
import DocTree.Proofs.Section.Parents
import Mathlib.Data.List.Forall2

/-!
# Reading a value decides whether it is sound

Every reader accepts a value of the declared types exactly if no rule is broken in it or in any part of
it, and what is written from the result is the value with its defaults filled in. Sections and
directories are read down to a depth that the value sets itself, so their readers go by induction on it.
-/
namespace DocTree

namespace Checked

variable {α β γ : Type} {accepted accepted' : Prop} {good : α → Prop} {good' : β → Prop}

/-- The check succeeds exactly if something is the case, and then with a result that is good. -/
def Decides (x : Checked α) (accepted : Prop) (good : α → Prop) : Prop :=
  match x with
  | .ok a => accepted ∧ good a
  | .error _ => ¬accepted

theorem Decides.imp {x : Checked α} {better : α → Prop} (h : x.Decides accepted good)
    (hiff : accepted ↔ accepted') (hgood : ∀ a, accepted → good a → better a) :
    x.Decides accepted' better := by
  cases x with
  | ok a => exact ⟨hiff.mp h.1, hgood a h.1 h.2⟩
  | error _ => exact fun h' => h (hiff.mpr h')

theorem Decides.map {x : Checked α} {f : α → β} (h : x.Decides accepted fun a => good' (f a)) :
    Decides (x.map f) accepted good' := by
  cases x <;> exact h

theorem Decides.within {x : Checked α} (step : Text) (h : x.Decides accepted good) :
    (within step x).Decides accepted good := by
  cases x <;> exact h

/-- Both checks are made, whatever comes of the first. -/
theorem Decides.map₂ {x : Checked α} {y : Checked β} (f : α → β → γ) (hx : x.Decides accepted good)
    (hy : y.Decides accepted' good') :
    (map₂ f x y).Decides (accepted ∧ accepted') fun c => ∃ a b, good a ∧ good' b ∧ c = f a b := by
  cases x with
  | ok a =>
    cases y with
    | ok b => exact ⟨⟨hx.1, hy.1⟩, a, b, hx.2, hy.2, rfl⟩
    | error _ => exact fun h => hy h.2
  | error _ => cases y <;> exact fun h => hx h.1

/-- The second check is made only if the first succeeds. -/
theorem Decides.bind {x : Checked α} {g : α → Checked β} (hx : x.Decides accepted good)
    (hg : ∀ a, accepted → good a → (g a).Decides accepted' good') :
    Decides (x >>= g) (accepted ∧ accepted') good' := by
  cases x with
  | ok a => exact (hg a hx.1 hx.2).imp (and_iff_right hx.1).symm fun _ _ h => h
  | error _ => exact fun h => hx h.1

theorem decides_items {read : Value → Checked α} {accepted : Value → Prop} {good : Value → α → Prop}
    {items : List Value} (h : ∀ v ∈ items, (read v).Decides (accepted v) (good v)) (n : Nat) :
    (Checked.items read n items).Decides (∀ v ∈ items, accepted v) (List.Forall₂ good items) := by
  induction items generalizing n with
  | nil => exact ⟨nofun, .nil⟩
  | cons v items ih =>
    rw [List.forall_mem_cons] at h
    refine ((h.1.within _).map₂ List.cons (ih h.2 (n + 1))).imp List.forall_mem_cons.symm ?_
    rintro _ - ⟨a, as, ha, has, rfl⟩
    exact .cons ha has

end Checked

namespace Schema

variable {α : Type} {n : Nat} {k : Kind}

/-- The reader accepts the sound ones of the values that nest less than `n` deep and are typed, and
what is written from its results are their filled forms. -/
def Reads (n : Nat) (k : Kind) (read : Value → Checked α) (write : α → Value) : Prop :=
  ∀ v, v.depth < n → Typed k v → (read v).Decides (Sound k v) fun a => Filled k v (write a)

theorem reads_text : Reads n .text Value.toText .text := by
  intro v _ hv
  match v, hv.self with
  | .text s, _ => exact ⟨(throughout_scalar .text).mpr nofun, .scalar .text trivial⟩

theorem reads_number : Reads n (.number none none) Value.toNumber .number := by
  intro v _ hv
  match v, hv.self with
  | .number m, _ => exact ⟨sound_number.mpr ⟨nofun, nofun⟩, .scalar .number trivial⟩

theorem reads_numberFrom (least : Nat) :
    Reads n (.number (some least) none) (Value.toNumberFrom least) fun m => .number m := by
  intro v _ hv
  match v, hv.self with
  | .number m, _ =>
    have hiff : Sound (.number (some least) none) (.number m) ↔ (least : Int) ≤ m := by
      simp [sound_number]
    rw [show Value.toNumberFrom least (.number m) = if m < least then _ else _ from rfl]
    split
    · exact fun h => by have := hiff.mp h; omega
    · have hm : (m.toNat : Int) = m := by omega
      refine ⟨hiff.mpr (by omega), ?_⟩
      simpa only [hm] using .scalar .number trivial

theorem reads_level : Reads n (.number (some 1) (some 6)) Value.toLevel .number := by
  intro v _ hv
  match v, hv.self with
  | .number m, _ =>
    have hiff : Sound (.number (some 1) (some 6)) (.number m) ↔ 1 ≤ m ∧ m ≤ 6 := by
      simp [sound_number]
    simp only [Value.toLevel, Value.toNumber, Except.bind]
    cases hfault : LevelFault.of? m with
    | none => exact ⟨hiff.mpr (Heading.levelFault_eq_none.mp hfault), .scalar .number trivial⟩
    | some fault =>
      intro h
      have hnone := Heading.levelFault_eq_none.mpr (hiff.mp h)
      simp [hfault] at hnone

theorem reads_tag (tag : String) :
    Reads n (.tag tag) (Value.hasTag tag) fun _ => .text tag.toList := by
  intro v _ hv
  match v, hv.self with
  | .text s, _ =>
    rw [show Value.hasTag tag (.text s) = if s = tag.toList then .ok () else _ from rfl]
    split
    · rename_i h
      exact ⟨sound_tag.mpr h, h ▸ .scalar .tag trivial⟩
    · exact fun h => absurd (sound_tag.mp h) ‹_›

theorem reads_tree : Reads n .tree Value.toTree .tree := by
  intro v _ hv
  match v, hv.self with
  | .tree page, _ => exact ⟨(throughout_scalar .tree).mpr nofun, .scalar .tree trivial⟩

theorem reads_orNull {read : Value → Checked α} {write : α → Value} (h : Reads n k read write) :
    Reads n (.orNull k) (Value.orNull read) fun o => (o.map write).getD .null := by
  intro v hd hv
  by_cases hnull : v = .null
  · subst hnull
    exact ⟨throughout_null.mpr nofun, .null⟩
  · have hread : Value.orNull read v = (read v).map some := by
      unfold Value.orNull
      split
      · exact absurd rfl hnull
      · rfl
    rw [hread]
    have hsome := h v hd ((throughout_orNull hnull).mp hv).2
    exact .map (hsome.imp (sound_orNull hnull).symm fun _ _ ha => .some hnull ha)

theorem depth_le_of_mem {items : List Value} {v : Value} (h : v ∈ items) :
    v.depth ≤ Value.depthOfItems items := by
  induction items with
  | nil => cases h
  | cons w items ih =>
    rw [Value.depthOfItems]
    obtain rfl | h := List.mem_cons.mp h
    · exact Nat.le_max_left ..
    · exact Nat.le_trans (ih h) (Nat.le_max_right ..)

theorem depth_le_of_lookup {fields : List (Text × Value)} {name : Text} {v : Value}
    (h : fields.lookup name = some v) : v.depth ≤ Value.depthOfFields fields := by
  induction fields with
  | nil => cases h
  | cons p fields ih =>
    obtain ⟨name', w⟩ := p
    rw [Value.depthOfFields]
    rw [List.lookup_cons] at h
    split at h
    · cases h
      exact Nat.le_max_left ..
    · exact Nat.le_trans (ih h) (Nat.le_max_right ..)

theorem reads_list {read : Value → Checked α} {write : α → Value} (h : Reads n k read write) :
    Reads n (.list k) (Value.toList read) fun as => .list (as.map write) := by
  intro v hd hv
  match v, hv.self with
  | .list items, _ =>
    rw [Value.depth] at hd
    have hitems : ∀ v ∈ items, (read v).Decides (Sound k v) fun a => Filled k v (write a) := by
      refine fun v hmem => h v ?_ ((throughout_list.mp hv).2 v hmem)
      have := depth_le_of_mem hmem
      omega
    refine (Checked.decides_items hitems 0).imp sound_list.symm fun as _ has => ?_
    refine .list (by simp [has.length_eq]) fun i v w hi hw => ?_
    rw [List.getElem?_map, Option.map_eq_some_iff] at hw
    obtain ⟨a, ha, rfl⟩ := hw
    obtain ⟨_, rfl⟩ := List.getElem?_eq_some_iff.mp hi
    obtain ⟨_, rfl⟩ := List.getElem?_eq_some_iff.mp ha
    exact has.get _ _

variable {fields : List (Text × Value)} {f : Form}

/-- What is written for a key: its filled value or else its default. -/
def KeyFilled (fields : List (Text × Value)) (key : Key) (w : Value) : Prop :=
  match fields.lookup key.name.toList with
  | some v => Filled key.kind v w
  | none => key.default = some w

/-- What a record has at a key, if anything, nests less deep than the bound and is typed. -/
def KeyFits (n : Nat) (fields : List (Text × Value)) (key : Key) : Prop :=
  ∀ v ∈ fields.lookup key.name.toList, v.depth < n ∧ Typed key.kind v

theorem decides_key {key : Key} {read : Value → Checked α} {write : α → Value} {missing : Checked α}
    (h : KeyFits n fields key) (hread : Reads n key.kind read write)
    (hmissing : missing.Decides (key.default ≠ none) fun a => key.default = some (write a)) :
    (Checked.within key.name.toList <| match fields.lookup key.name.toList with
      | some v => read v
      | none => missing).Decides (KeySound fields key) fun a => KeyFilled fields key (write a) := by
  refine .within _ ?_
  simp only [KeySound, KeyFilled]
  cases hv : fields.lookup key.name.toList with
  | none => exact hmissing
  | some v =>
    obtain ⟨hd, ht⟩ := h v hv
    exact hread v hd ht

theorem decides_required {name : String} {read : Value → Checked α} {write : α → Value}
    (h : KeyFits n fields { name, kind := k }) (hread : Reads n k read write) :
    (Value.required fields name read).Decides (KeySound fields { name, kind := k })
      fun a => KeyFilled fields { name, kind := k } (write a) :=
  decides_key h hread fun h => h rfl

theorem decides_optional {key : Key} {read : Value → Checked α} {write : α → Value} (default : α)
    (h : KeyFits n fields key) (hread : Reads n key.kind read write)
    (hdefault : key.default = some (write default)) :
    (Value.optional fields key.name default read).Decides (KeySound fields key)
      fun a => KeyFilled fields key (write a) :=
  decides_key h hread ⟨hdefault ▸ nofun, hdefault⟩

theorem decides_text {name : String} (h : KeyFits n fields (.text name)) :
    (Value.required fields name Value.toText).Decides (KeySound fields (.text name))
      fun s => KeyFilled fields (.text name) (.text s) :=
  decides_required h reads_text

theorem decides_tag {tag : String} (h : KeyFits n fields (.tag tag)) :
    (Value.optional fields "type" () (Value.hasTag tag)).Decides (KeySound fields (.tag tag))
      fun _ => KeyFilled fields (.tag tag) (.text tag.toList) :=
  decides_optional () h (reads_tag tag) rfl

theorem decides_tree (h : KeyFits n fields .tree) :
    (Value.required fields "tree" Value.toTree).Decides (KeySound fields .tree)
      fun page => KeyFilled fields .tree (.tree page) :=
  decides_key h reads_tree fun h => h rfl

theorem decides_list {name : String} {read : Value → Checked α} {write : α → Value}
    (h : KeyFits n fields (.list name k)) (hread : Reads n k read write) :
    (Value.optional fields name [] (Value.toList read)).Decides (KeySound fields (.list name k))
      fun as => KeyFilled fields (.list name k) (.list (as.map write)) :=
  decides_optional [] h (reads_list hread) rfl

/-- Named values are what is written for some keys, in their order. -/
def Answers (fields : List (Text × Value)) : List Key → List (Text × Value) → Prop :=
  List.Forall₂ fun key p => p.1 = key.name.toList ∧ KeyFilled fields key p.2

theorem Answers.nil : Answers fields [] [] :=
  List.Forall₂.nil

theorem Answers.cons {key : Key} {keys : List Key} {fields' : List (Text × Value)} {w : Value}
    (hw : KeyFilled fields key w) (h : Answers fields keys fields') :
    Answers fields (key :: keys) ((key.name.toList, w) :: fields') :=
  List.Forall₂.cons ⟨rfl, hw⟩ h

/-- If named values are what is written for some keys, in their order, each key is found among them. -/
theorem exists_keyFilled {keys : List Key} {fields' : List (Text × Value)}
    (hnodup : (keys.map fun key => key.name.toList).Nodup)
    (h : Answers fields keys fields') {key : Key} (hkey : key ∈ keys) :
    ∃ w, fields'.lookup key.name.toList = some w ∧ KeyFilled fields key w := by
  induction h with
  | nil => cases hkey
  | @cons key' p keys fields' hp _ ih =>
    obtain ⟨name, w⟩ := p
    obtain ⟨rfl, hw⟩ := hp
    obtain ⟨hnot, hnodup⟩ := List.nodup_cons.mp hnodup
    obtain rfl | hkey := List.mem_cons.mp hkey
    · exact ⟨w, List.lookup_cons_self, hw⟩
    · have hne : (key.name.toList == key'.name.toList) = false :=
        beq_eq_false_iff_ne.mpr fun heq => hnot (List.mem_map.mpr ⟨key, hkey, heq⟩)
      rw [List.lookup_cons, hne]
      exact ih hnodup hkey

theorem filled_record {fields' : List (Text × Value)} (h : Answers fields f.shown fields') :
    Filled (.record f) (.record fields) (.record fields') := by
  refine .record ?_ (fun key hkey v w hv hw => ?_) fun key hkey hnone => ?_
  · have hnames := h.flip.imp fun _ _ hp => hp.1
    rwa [← List.forall₂_map_right_iff, ← List.forall₂_map_left_iff, List.forall₂_eq_eq_eq] at hnames
  · obtain ⟨w', hw', hfilled⟩ := exists_keyFilled f.shown_nodup h hkey
    rw [KeyFilled, hv] at hfilled
    rwa [← Option.some.inj (hw'.symm.trans hw)]
  · obtain ⟨w', hw', hfilled⟩ := exists_keyFilled f.shown_nodup h hkey
    rw [KeyFilled, hnone] at hfilled
    rw [hw', hfilled]

/-- A reader of records reads a form if it takes each of its keys, and the order of the lines where it is
a range, and each key is written from the result. -/
theorem reads_record {m : Nat} {read : Value → Checked α} {write : α → Value} (hn : n ≤ m + 1)
    (h : ∀ fields, (∀ key ∈ f.keys, KeyFits m fields key) →
      (read (.record fields)).Decides
        ((∀ key ∈ f.keys, KeySound fields key) ∧ (f.isRange → Ordered fields))
        fun a => ∃ fields', write a = .record fields' ∧ Answers fields f.shown fields') :
    Reads n (.record f) read write := by
  intro v hd hv
  match v, hv.self with
  | .record fields, _ =>
    have hkeys : ∀ key ∈ f.keys, KeyFits m fields key := by
      refine fun key hkey v hv' => ⟨?_, (throughout_record.mp hv).2 key hkey v hv'⟩
      have := depth_le_of_lookup hv'
      rw [Value.depth] at hd
      omega
    refine (h fields hkeys).imp sound_record.symm ?_
    rintro a - ⟨fields', hwrite, hanswers⟩
    rw [hwrite]
    exact filled_record hanswers

theorem decides_numbers (hstart : KeyFits n fields .start) (hstop : KeyFits n fields .stop) :
    (Span.numbers fields).Decides (KeySound fields .start ∧ KeySound fields .stop) fun p =>
      KeyFilled fields .start (.number p.1) ∧
        KeyFilled fields .stop ((p.2.map .number).getD .null) := by
  refine ((decides_required hstart (reads_numberFrom 1)).map₂ Prod.mk
    (decides_optional none hstop (reads_orNull reads_number) rfl)).imp Iff.rfl ?_
  rintro _ - ⟨start, stop, hs, ht, rfl⟩
  exact ⟨hs, ht⟩

theorem lookup_of_keyFilled_start {m : Int} (h : KeyFilled fields .start (.number m)) :
    fields.lookup Key.start.name.toList = some (.number m) := by
  unfold KeyFilled at h
  split at h
  · rw [h.eq_of_scalar .number]
    assumption
  · cases h

theorem lookup_of_keyFilled_stop {stop : Option Int}
    (h : KeyFilled fields .stop ((stop.map .number).getD .null)) (m : Int) :
    fields.lookup Key.stop.name.toList = some (.number m) ↔ stop = some m := by
  unfold KeyFilled at h
  split at h
  · rename_i v hv
    rw [hv, ← h.eq_of_orNull .number]
    cases stop <;> simp
  · rename_i hv
    rw [hv]
    cases stop with
    | none => simp
    | some m => cases h

/-- Of two numbers read for the lines of a range only their order is left to see. -/
theorem decides_ofLines {start : Nat} {stop : Option Int} (hsound : KeySound fields .start)
    (hstart : KeyFilled fields .start (.number start))
    (hstop : KeyFilled fields .stop ((stop.map .number).getD .null)) :
    (Span.ofLines start stop).Decides (Ordered fields) fun s =>
      Answers fields [.start, .stop] s.fields := by
  have hfirst := lookup_of_keyFilled_start hstart
  have hpos : 0 < start := by
    rw [KeySound, hfirst] at hsound
    have := (sound_number.mp hsound).1 1 rfl
    omega
  -- the numbers read are those of the record, so the order of its fields is that of the numbers
  have hordered : Ordered fields ↔ ∀ m ∈ stop, (start : Int) ≤ m := by
    constructor
    · exact fun h m hm => h _ _ hfirst ((lookup_of_keyFilled_stop hstop m).mpr hm)
    · intro h m m' hm hm'
      cases hfirst.symm.trans hm
      exact h m' ((lookup_of_keyFilled_stop hstop m').mp hm')
  rw [hordered, Span.ofLines, dif_pos hpos]
  cases stop with
  | none => exact ⟨by simp, .cons hstart (.cons hstop .nil)⟩
  | some m =>
    show Checked.Decides (dite _ _ _) _ _
    split
    · rename_i hle
      have hm : (m.toNat : Int) = m := by omega
      refine ⟨by simpa using hle, .cons hstart (.cons ?_ .nil)⟩
      simpa [hm] using hstop
    · rename_i hlt
      exact fun h => hlt (h m rfl)

theorem reads_span : Reads n (.record .span) Span.ofValue Span.toValue := by
  refine reads_record (Nat.le_succ n) fun fields hkeys => ?_
  simp only [Form.keys, List.forall_mem_cons] at hkeys
  obtain ⟨hstart, hstop, -⟩ := hkeys
  have hspan := (decides_numbers hstart hstop).bind fun p hs hp => decides_ofLines hs.1 hp.1 hp.2
  refine hspan.imp ?_ fun s _ hs => ⟨s.fields, rfl, hs⟩
  simp [Form.keys, Form.isRange]

/-- The block is read before the lines are compared. -/
theorem reads_edit : Reads n (.record .edit) Edit.ofValue Edit.toValue := by
  refine reads_record (Nat.le_succ n) fun fields hkeys => ?_
  simp only [Form.keys, List.forall_mem_cons] at hkeys
  obtain ⟨hstart, hstop, hcontent, -⟩ := hkeys
  have hread := (decides_numbers hstart hstop).map₂ Prod.mk (decides_text hcontent)
  have hedit : (Edit.ofValue (.record fields)).Decides
      (((KeySound fields .start ∧ KeySound fields .stop) ∧ KeySound fields (.text "new_content")) ∧
        Ordered fields)
      fun e => Answers fields Form.edit.shown
        (e.span.fields ++ [("new_content".toList, .text e.content)]) := by
    refine hread.bind fun p hs hp => ?_
    obtain ⟨⟨start, stop⟩, content, ⟨hstart, hstop⟩, hcontent, rfl⟩ := hp
    have hspan := decides_ofLines hs.1.1 hstart hstop
    show Checked.Decides ((Span.ofLines start stop).map (Edit.mk · content)) _ _
    exact .map (hspan.imp Iff.rfl fun _ _ hs => List.rel_append hs (Answers.cons hcontent .nil))
  refine hedit.imp ?_ fun _ _ h => ⟨_, rfl, h⟩
  simp [Form.keys, Form.isRange, and_assoc]

theorem reads_fileEdit : Reads n (.record .fileEdit) FileEdit.ofValue FileEdit.toValue := by
  refine reads_record (Nat.le_succ n) fun fields hkeys => ?_
  simp only [Form.keys, List.forall_mem_cons] at hkeys
  obtain ⟨hname, hedits, -⟩ := hkeys
  have hread := (decides_text hname).map₂ FileEdit.mk (decides_list hedits reads_edit)
  refine hread.imp ?_ ?_
  · simp [Form.keys, Form.isRange]
  · rintro _ - ⟨filename, edits, hname, hedits, rfl⟩
    exact ⟨_, rfl, .cons hname (.cons hedits .nil)⟩

theorem toValues_eq_map (forest : List Section) :
    Section.toValues forest = forest.map Section.toValue := by
  induction forest with
  | nil => rfl
  | cons s forest ih => rw [Section.toValues, ih, List.map_cons]

theorem reads_headingWithin (n : Nat) :
    Reads n (.record .heading) (Section.ofValueWithin n) Section.toValue := by
  induction n with
  | zero => exact fun _ hd => absurd hd (Nat.not_lt_zero _)
  | succ n ih =>
    refine reads_record (Nat.le_refl _) fun fields hkeys => ?_
    simp only [Form.keys, List.forall_mem_cons] at hkeys
    obtain ⟨htag, hlevel, htitle, hanchor, hname, hchildren, -⟩ := hkeys
    have htagged := (decides_tag htag).map₂ (fun _ level => level) (decides_required hlevel reads_level)
    have htitled := htagged.map₂ Section.mk (decides_text htitle)
    have hanchored := htitled.map₂ (· ·) (decides_text hanchor)
    have hnamed := hanchored.map₂ (· ·) (decides_text hname)
    have hread := hnamed.map₂ (· ·) (decides_list hchildren ih)
    refine hread.imp ?_ ?_
    · simp [Form.keys, Form.isRange, and_assoc]
    · rintro _ - ⟨_, children, ⟨_, filename, ⟨_, anchor, ⟨level, title, ⟨_, _, htag, hlevel, rfl⟩,
        htitle, rfl⟩, hanchor, rfl⟩, hname, rfl⟩, hchildren, rfl⟩
      refine ⟨_, rfl, .cons htag (.cons hlevel (.cons htitle
        (.cons hanchor (.cons hname (.cons ?_ .nil)))))⟩
      rw [toValues_eq_map]
      exact hchildren

theorem reads_heading : Reads n (.record .heading) Section.ofValue Section.toValue :=
  fun v _ hv => reads_headingWithin (v.depth + 1) v (Nat.lt_succ_self _) hv

theorem reads_document : Reads n (.record .document) Document.ofValue Document.toValue := by
  refine reads_record (Nat.le_succ n) fun fields hkeys => ?_
  simp only [Form.keys, List.forall_mem_cons] at hkeys
  obtain ⟨htag, hname, htitle, hsections, htree, hcount, -⟩ := hkeys
  have hnamed := (decides_tag htag).map₂ (fun _ name => name) (decides_text hname)
  have htitled := hnamed.map₂ Document.mk (decides_text htitle)
  have hdivided := htitled.map₂ (· ·) (decides_list hsections reads_heading)
  have hparsed := hdivided.map₂ (· ·) (decides_tree htree)
  have hread := hparsed.map₂ (· ·) (decides_optional 0 hcount (reads_numberFrom 0) rfl)
  refine hread.imp ?_ ?_
  · simp [Form.keys, Form.isRange, and_assoc]
  · rintro _ - ⟨_, count, ⟨_, page, ⟨_, sections, ⟨_, title, ⟨_, filename, htag, hname, rfl⟩,
      htitle, rfl⟩, hsections, rfl⟩, -, rfl⟩, hcount, rfl⟩
    refine ⟨_, rfl, .cons htag (.cons hname (.cons htitle
      (.cons ?_ (.cons hcount .nil))))⟩
    rw [toValues_eq_map]
    exact hsections

theorem entryValues_eq_map (entries : List Entry) :
    Entry.toValues entries = entries.map Entry.toValue := by
  induction entries with
  | nil => rfl
  | cons e entries ih => rw [Entry.toValues, ih, List.map_cons]

/-- An entry is read as what its tag says; one without a known tag is none. -/
theorem reads_entry {directory : Value → Checked Entry}
    (h : Reads n (.record .directory) directory Entry.toValue) :
    Reads n .entry (Entry.ofTagged directory) Entry.toValue := by
  intro v hd hv
  have htyped {f : Form} (hf : Form.ofTag? v = some f) : Typed (.record f) v :=
    ((throughout_entry hf).mp hv).2
  match v, hv.self with
  | .record fields, hshape =>
    cases htag : fields.lookup "type".toList with
    | none =>
      simp only [Entry.ofTagged, htag]
      exact not_sound_entry (by simp only [Form.ofTag?, htag])
    | some tag =>
      obtain ⟨name, rfl⟩ := hshape tag htag
      have hform : Form.ofTag? (.record fields) = if name = "directory".toList then some .directory
          else if name = "document".toList then some .document else none := by
        simp only [Form.ofTag?, htag]
      simp only [Entry.ofTagged, htag]
      split
      · rw [if_pos ‹_›] at hform
        exact ((h _ hd (htyped hform)).within _).imp (sound_entry hform).symm fun _ _ => .entry hform
      · rw [if_neg ‹_›] at hform
        split
        · rw [if_pos ‹_›] at hform
          have hdoc := reads_document _ hd (htyped hform)
          exact .within _ (.map (hdoc.imp (sound_entry hform).symm fun _ _ => .entry hform))
        · rw [if_neg ‹_›] at hform
          exact not_sound_entry hform

theorem reads_directoryWithin (n : Nat) :
    Reads n (.record .directory) (Entry.directoryWithin n) Entry.toValue := by
  induction n with
  | zero => exact fun _ hd => absurd hd (Nat.not_lt_zero _)
  | succ n ih =>
    refine reads_record (Nat.le_refl _) fun fields hkeys => ?_
    simp only [Form.keys, List.forall_mem_cons] at hkeys
    obtain ⟨htag, hname, htitle, hentries, hroot, -⟩ := hkeys
    have hnamed := (decides_tag htag).map₂ (fun _ name => name) (decides_text hname)
    have htitled := hnamed.map₂ Entry.directory (decides_text htitle)
    have hfilled := htitled.map₂ (· ·) (decides_list hentries (reads_entry ih))
    have hread := hfilled.map₂ (· ·) (decides_optional none hroot (reads_orNull reads_document) rfl)
    refine hread.imp ?_ ?_
    · simp [Form.keys, Form.isRange, and_assoc]
    · rintro _ - ⟨_, root, ⟨_, entries, ⟨_, title, ⟨_, filename, htag, hname, rfl⟩, htitle, rfl⟩,
        hentries, rfl⟩, hroot, rfl⟩
      refine ⟨_, rfl, .cons htag (.cons hname (.cons htitle
        (.cons ?_ (.cons hroot .nil))))⟩
      rw [entryValues_eq_map]
      exact hentries

theorem reads_directory : Reads n (.record .directory) Entry.directoryOfValue Entry.toValue :=
  fun v _ hv => reads_directoryWithin (v.depth + 1) v (Nat.lt_succ_self _) hv

/-- What is written of a value of a form after it is read. -/
theorem normalize?_decides (f : Form) {v : Value} (hv : Typed (.record f) v) :
    ∃ x, Value.normalize? f.name.toList v = some x ∧
      x.Decides (Sound (.record f) v) (Filled (.record f) v) := by
  have hd := Nat.lt_succ_self v.depth
  cases f with
  | span => exact ⟨_, rfl, (reads_span v hd hv).map⟩
  | edit => exact ⟨_, rfl, (reads_edit v hd hv).map⟩
  | fileEdit => exact ⟨_, rfl, (reads_fileEdit v hd hv).map⟩
  | heading => exact ⟨_, rfl, (reads_heading v hd hv).map⟩
  | document => exact ⟨_, rfl, (reads_document v hd hv).map⟩
  | directory => exact ⟨_, rfl, (reads_directory v hd hv).map⟩

theorem not_sound_iff {v : Value} :
    ¬Sound k v ↔ ∃ k' part, Relation.ReflTransGen Part (k, v) (k', part) ∧ Fault k' part := by
  simp only [Sound, Throughout]
  push Not
  rfl

/-- A typed value of a form is accepted exactly if it is sound, and refused exactly if it or a part of
it, at some depth, breaks a rule; a tree that is missing is one. What is written when it is accepted is
the value with its defaults filled in. Trees are not written, so it is sound and gives itself when it is
read with trees supplied, whichever they are; if the value held no tree, it does so as it stands. -/
theorem normalize_fills_iff_sound (f : Form) (v : Value) (hv : Typed (.record f) v) :
    (∀ w, Value.normalize? f.name.toList v = some (.ok w) →
      Filled (.record f) v w ∧ Typed (.record f) w ∧
      (∀ page, Typed (.record f) (w.withTree page) ∧ Sound (.record f) (w.withTree page) ∧
        Value.normalize? f.name.toList (w.withTree page) = some (.ok w)) ∧
      (Treeless v → Sound (.record f) w ∧ Value.normalize? f.name.toList w = some (.ok w))) ∧
    ((∃ w, Value.normalize? f.name.toList v = some (.ok w)) ↔ Sound (.record f) v) ∧
    ((∃ problems, Value.normalize? f.name.toList v = some (.error problems)) ↔
      ∃ k part, Relation.ReflTransGen Part (.record f, v) (k, part) ∧ Fault k part) := by
  have haccepts {u : Value} (hu : Typed (.record f) u) (hsound : Sound (.record f) u) :
      ∃ w, Value.normalize? f.name.toList u = some (.ok w) ∧ Filled (.record f) u w := by
    obtain ⟨x, hx, hdecides⟩ := normalize?_decides f hu
    cases x with
    | error _ => exact absurd hsound hdecides
    | ok w => exact ⟨w, hx, hdecides.2⟩
  obtain ⟨x, hx, hdecides⟩ := normalize?_decides f hv
  rw [← not_sound_iff, hx]
  cases x with
  | error problems =>
    have hunsound : ¬Sound (.record f) v := hdecides
    simpa using hunsound
  | ok w =>
    obtain ⟨hsound, hfilled⟩ := hdecides
    refine ⟨?_, by simpa using hsound, by simpa using hsound⟩
    rintro _ ⟨⟩
    have hw := hfilled.typed hv
    refine ⟨hfilled, hw, fun page => ?_, fun htreeless => ?_⟩
    · have htyped := typed_withTree page hw
      have hsupplied := hfilled.sound_withTree page hsound
      obtain ⟨w', hw', hfilled'⟩ := haccepts htyped hsupplied
      exact ⟨htyped, hsupplied, hfilled.eq_of_filled hfilled'.of_withTree ▸ hw'⟩
    · have hwsound := hfilled.sound hsound (htreeless.throughout hv)
      obtain ⟨w', hw', hfilled'⟩ := haccepts hw hwsound
      exact ⟨hwsound, hfilled.eq_of_filled hfilled' ▸ hw'⟩

/-- A directory of one document, with as little said of the two as may be. `size` is no declared key. -/
def sparse : Value :=
  .record [("filename".toList, .text "docs".toList), ("title".toList, .text "Docs".toList),
    ("entries".toList, .list [.record [("title".toList, .text "A".toList),
      ("filename".toList, .text "docs/a.md".toList), ("type".toList, .text "document".toList),
      ("size".toList, .number 7), ("tree".toList, .tree [])]])]

def full : Value :=
  .record [("type".toList, .text "directory".toList), ("filename".toList, .text "docs".toList),
    ("title".toList, .text "Docs".toList),
    ("entries".toList, .list [.record [("type".toList, .text "document".toList),
      ("filename".toList, .text "docs/a.md".toList), ("title".toList, .text "A".toList),
      ("sections".toList, .list []), ("line_count".toList, .number 0)]]),
    ("root_document".toList, .null)]

theorem typed_sparse : Typed (.record .directory) sparse := by
  have htext {s : Text} : Typed .text (.text s) := (throughout_scalar .text).mpr trivial
  have htag {name : String} {s : Text} : Typed (.tag name) (.text s) :=
    (throughout_scalar .tag).mpr trivial
  refine throughout_record.mpr ⟨trivial, ?_⟩
  simp only [Form.keys, List.forall_mem_cons]
  refine ⟨?type, ?filename, ?title, ?entries, ?root, by simp⟩
  case type | root => rintro _ ⟨⟩
  case filename | title => rintro _ ⟨⟩; exact htext
  case entries =>
    rintro _ ⟨⟩
    refine throughout_list.mpr ⟨trivial, List.forall_mem_singleton.mpr ?_⟩
    refine (throughout_entry (f := .document) rfl).mpr ⟨?_, throughout_record.mpr ⟨trivial, ?_⟩⟩
    · rintro _ ⟨⟩
      exact ⟨_, rfl⟩
    · simp only [Form.keys, List.forall_mem_cons]
      refine ⟨?type, ?filename, ?title, ?sections, ?tree, ?count, by simp⟩
      case type => rintro _ ⟨⟩; exact htag
      case filename | title => rintro _ ⟨⟩; exact htext
      case tree => rintro _ ⟨⟩; exact (throughout_scalar .tree).mpr trivial
      case sections | count => rintro _ ⟨⟩

def place : Value :=
  .record [("start_line".toList, .number 3)]

theorem typed_place : Typed (.record .span) place := by
  refine throughout_record.mpr ⟨trivial, ?_⟩
  simp only [Form.keys, List.forall_mem_cons]
  refine ⟨?start, ?stop, by simp⟩
  case start => rintro _ ⟨⟩; exact (throughout_scalar .number).mpr trivial
  case stop => rintro _ ⟨⟩

/-- What is written of a directory lacks the tree of its document and is refused until one is supplied.
A span has no tree, and what is written of it is accepted at once. -/
theorem normalize_sparse :
    (Typed (.record .directory) sparse ∧
      Value.normalize? "Directory".toList sparse = some (.ok full) ∧
      Filled (.record .directory) sparse full ∧
      Value.normalize? "Directory".toList full = some (.error
        [⟨["entries".toList, "0".toList, "document".toList, "tree".toList],
          "Field required".toList⟩]) ∧
      Sound (.record .directory) (full.withTree []) ∧
      Value.normalize? "Directory".toList (full.withTree []) = some (.ok full)) ∧
    Typed (.record .span) place ∧ Treeless place ∧
      ∃ w, Value.normalize? "Span".toList place = some (.ok w) ∧ Sound (.record .span) w ∧
        Value.normalize? "Span".toList w = some (.ok w) := by
  obtain ⟨hfilled, -, hagain, -⟩ :=
    (normalize_fills_iff_sound .directory sparse typed_sparse).1 full rfl
  obtain ⟨-, hsound, hfull⟩ := hagain []
  have hplace : Treeless place := .record (List.forall_mem_singleton.mpr .number)
  obtain ⟨-, -, -, hspan⟩ := (normalize_fills_iff_sound .span place typed_place).1 _ rfl
  exact ⟨⟨typed_sparse, rfl, hfilled, rfl, hsound, hfull⟩, typed_place, hplace, _, rfl, hspan hplace⟩

end Schema

end DocTree
