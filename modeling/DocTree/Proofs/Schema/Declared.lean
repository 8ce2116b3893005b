import DocTree.Schema
import Mathlib.Logic.Relation
import Mathlib.Data.List.Nodup

/-!
# What the data forms declare

Each form of record declares its keys, with what their values are and what stands for those left out.
A value is sound if neither it nor any part of it, however deep, breaks a rule of its declaration.
-/
namespace DocTree.Schema

inductive Form where
  | span | edit | fileEdit | heading | document | directory
  deriving DecidableEq, Repr

/-- What a value is declared to be. An entry is a directory or a document, as its tag says. -/
inductive Kind where
  | text
  | number (least most : Option Int)
  | tag (name : String)
  | tree
  | orNull (kind : Kind)
  | list (kind : Kind)
  | record (form : Form)
  | entry
  deriving DecidableEq, Repr

inductive Kind.IsScalar : Kind → Prop
  | text : IsScalar .text
  | number {least most} : IsScalar (.number least most)
  | tag {name} : IsScalar (.tag name)
  | tree : IsScalar .tree

/-- A declared key. One without a default has to be there; a hidden one is read and never written. -/
structure Key where
  name : String
  kind : Kind
  default : Option Value := none
  hidden : Bool := false

namespace Key

def start : Key where
  name := "start_line"
  kind := .number (some 1) none

/-- The line after a range; a range may be only a place, which has none. -/
def stop : Key where
  name := "end_line"
  kind := .orNull (.number none none)
  default := some .null

def text (name : String) : Key where
  name := name
  kind := .text

def list (name : String) (kind : Kind) : Key where
  name := name
  kind := .list kind
  default := some (.list [])

def tag (tag : String) : Key where
  name := "type"
  kind := .tag tag
  default := some (.text tag.toList)

def tree : Key where
  name := "tree"
  kind := .tree
  hidden := true

end Key

namespace Form

def name : Form → String
  | span => "Span"
  | edit => "TextMutation"
  | fileEdit => "FileMutation"
  | heading => "Section"
  | document => "Document"
  | directory => "Directory"

def isRange : Form → Bool
  | span | edit => true
  | _ => false

def keys : Form → List Key
  | span => [.start, .stop]
  | edit => [.start, .stop, .text "new_content"]
  | fileEdit => [.text "filename", .list "mutations" (.record edit)]
  | heading =>
    [.tag "section", { name := "level", kind := .number (some 1) (some 6) }, .text "title",
      .text "anchor", .text "filename", .list "children" (.record heading)]
  | document =>
    [.tag "document", .text "filename", .text "title", .list "sections" (.record heading), .tree,
      { name := "line_count", kind := .number (some 0) none, default := some (.number 0) }]
  | directory =>
    [.tag "directory", .text "filename", .text "title", .list "entries" .entry,
      { name := "root_document", kind := .orNull (.record document), default := some .null }]

def shown (f : Form) : List Key :=
  f.keys.filter fun key => !key.hidden

/-- The form that a record names by its tag, if it is one of an entry. -/
def ofTag? : Value → Option Form
  | .record fields =>
    match fields.lookup "type".toList with
    | some (.text tag) =>
      if tag = "directory".toList then some directory
      else if tag = "document".toList then some document
      else none
    | _ => none
  | _ => none

theorem mem_shown_of_isRange {f : Form} (h : f.isRange) :
    Key.start ∈ f.shown ∧ Key.stop ∈ f.shown := by
  cases f with
  | span | edit => simp [shown, keys, Key.start, Key.stop, Key.text]
  | _ => cases h

theorem keys_nodup (f : Form) : (f.keys.map fun key => key.name.toList).Nodup := by
  cases f <;> decide

/-- Only the tree of a document is hidden, and no other key has its name. -/
theorem eq_tree_or_mem_shown {f : Form} {key : Key} (h : key ∈ f.keys) :
    key = .tree ∨ (key ∈ f.shown ∧ key.name.toList ≠ "tree".toList) := by
  have hall : ∀ key ∈ f.keys, key = .tree ∨ (key.hidden = false ∧ key.name.toList ≠ "tree".toList) := by
    cases f <;> simp [keys, Key.tree, Key.tag, Key.text, Key.list, Key.start, Key.stop]
  exact (hall key h).imp_right fun ⟨hshown, hname⟩ =>
    ⟨List.mem_filter.mpr ⟨h, by simp [hshown]⟩, hname⟩

theorem shown_nodup (f : Form) : (f.shown.map fun key => key.name.toList).Nodup :=
  f.keys_nodup.sublist (List.filter_sublist.map _)

theorem mem_keys_of_mem_shown {f : Form} {key : Key} (h : key ∈ f.shown) : key ∈ f.keys :=
  (List.mem_filter.mp h).1

theorem ne_tree_of_mem_shown {f : Form} {key : Key} (h : key ∈ f.shown) :
    key.name.toList ≠ "tree".toList := by
  obtain ⟨hkey, hshown⟩ := List.mem_filter.mp h
  obtain rfl | ⟨-, hname⟩ := eq_tree_or_mem_shown hkey
  · cases hshown
  · exact hname

end Form

/-- A value and one directly in it, each with what it is declared to be. -/
inductive Part : Kind × Value → Kind × Value → Prop
  | some {k v} (h : v ≠ .null) : Part (.orNull k, v) (k, v)
  | item {k items v} (h : v ∈ items) : Part (.list k, .list items) (k, v)
  | key {f fields v} {key : Key} (h : key ∈ f.keys) (at_key : fields.lookup key.name.toList = .some v) :
    Part (.record f, .record fields) (key.kind, v)
  | entry {f v} (h : Form.ofTag? v = .some f) : Part (.entry, v) (.record f, v)

/-- Whether something holds of a value and of each part of it at any depth. -/
def Throughout (P : Kind → Value → Prop) (k : Kind) (v : Value) : Prop :=
  ∀ k' v', Relation.ReflTransGen Part (k, v) (k', v') → P k' v'

/-- Whether a value is of the declared type, its parts aside. The tag of an entry may be missing or
unknown, but if there is one it is a text. -/
def Shaped : Kind → Value → Prop
  | .text, .text _ => True
  | .number .., .number _ => True
  | .tag _, .text _ => True
  | .tree, .tree _ => True
  | .orNull _, _ => True
  | .list _, .list _ => True
  | .record _, .record _ => True
  | .entry, .record fields => ∀ v ∈ fields.lookup "type".toList, ∃ tag, v = .text tag
  | _, _ => False

/-- A rule of its declaration that a value breaks, its parts aside. -/
inductive Fault : Kind → Value → Prop
  | low {least most n} (h : n < least) : Fault (.number (some least) most) (.number n)
  | high {least most n} (h : most < n) : Fault (.number least (some most)) (.number n)
  | tag {tag s} (h : s ≠ tag.toList) : Fault (.tag tag) (.text s)
  | missing {f fields} {key : Key} (h : key ∈ f.keys) (required : key.default = none)
      (absent : fields.lookup key.name.toList = none) : Fault (.record f) (.record fields)
  | order {f : Form} {fields m n} (h : f.isRange)
      (start : fields.lookup "start_line".toList = some (.number m))
      (stop : fields.lookup "end_line".toList = some (.number n)) (precedes : n < m) :
      Fault (.record f) (.record fields)
  | untagged {v} (h : Form.ofTag? v = none) : Fault .entry v

def Typed : Kind → Value → Prop :=
  Throughout Shaped

def Sound : Kind → Value → Prop :=
  Throughout fun k v => ¬Fault k v

section throughout

variable {P : Kind → Value → Prop} {k : Kind} {v : Value}

theorem Throughout.self (h : Throughout P k v) : P k v :=
  h k v .refl

theorem Throughout.part {k' : Kind} {v' : Value} (h : Throughout P k v) (hp : Part (k, v) (k', v')) :
    Throughout P k' v' :=
  fun _ _ hr => h _ _ (.head hp hr)

theorem throughout_iff :
    Throughout P k v ↔ P k v ∧ ∀ k' v', Part (k, v) (k', v') → Throughout P k' v' := by
  refine ⟨fun h => ⟨h.self, fun _ _ => h.part⟩, fun ⟨hself, hparts⟩ k' v' hr => ?_⟩
  obtain heq | ⟨⟨k₁, v₁⟩, hp, hr⟩ := hr.cases_head
  · cases heq
    exact hself
  · exact hparts k₁ v₁ hp k' v' hr

theorem throughout_scalar (hk : k.IsScalar) : Throughout P k v ↔ P k v := by
  rw [throughout_iff, and_iff_left_iff_imp]
  rintro - _ _ ⟨⟩ <;> cases hk

theorem throughout_null : Throughout P (.orNull k) .null ↔ P (.orNull k) .null := by
  rw [throughout_iff, and_iff_left_iff_imp]
  rintro - _ _ (h | _)
  exact absurd rfl h

theorem throughout_orNull (hv : v ≠ .null) :
    Throughout P (.orNull k) v ↔ P (.orNull k) v ∧ Throughout P k v := by
  rw [throughout_iff, and_congr_right_iff]
  refine fun _ => ⟨fun h => h _ _ (.some hv), ?_⟩
  rintro h _ _ ⟨⟩
  exact h

theorem throughout_list {items : List Value} :
    Throughout P (.list k) (.list items) ↔
      P (.list k) (.list items) ∧ ∀ v ∈ items, Throughout P k v := by
  rw [throughout_iff, and_congr_right_iff]
  refine fun _ => ⟨fun h v hv => h _ _ (.item hv), ?_⟩
  rintro h _ v (_ | hv)
  exact h v hv

theorem throughout_record {f : Form} {fields : List (Text × Value)} :
    Throughout P (.record f) (.record fields) ↔
      P (.record f) (.record fields) ∧
        ∀ key ∈ f.keys, ∀ v ∈ fields.lookup key.name.toList, Throughout P key.kind v := by
  rw [throughout_iff, and_congr_right_iff]
  refine fun _ => ⟨fun h key hkey v hv => h _ _ (.key hkey hv), ?_⟩
  rintro h _ v (_ | _ | ⟨hkey, hv⟩)
  exact h _ hkey v hv

theorem throughout_entry {f : Form} (hf : Form.ofTag? v = some f) :
    Throughout P .entry v ↔ P .entry v ∧ Throughout P (.record f) v := by
  rw [throughout_iff, and_congr_right_iff]
  refine fun _ => ⟨fun h => h _ _ (.entry hf), ?_⟩
  rintro h _ _ (_ | _ | _ | hf')
  rw [hf] at hf'
  cases hf'
  exact h

end throughout

theorem fault_number_iff {least most : Option Int} {n : Int} :
    Fault (.number least most) (.number n) ↔ (∃ b ∈ least, n < b) ∨ ∃ b ∈ most, b < n := by
  constructor
  · rintro (h | h)
    · exact .inl ⟨_, rfl, h⟩
    · exact .inr ⟨_, rfl, h⟩
  · rintro (⟨b, rfl, h⟩ | ⟨b, rfl, h⟩)
    · exact .low h
    · exact .high h

theorem sound_number {least most : Option Int} {n : Int} :
    Sound (.number least most) (.number n) ↔ (∀ b ∈ least, b ≤ n) ∧ ∀ b ∈ most, n ≤ b := by
  rw [Sound, throughout_scalar .number, fault_number_iff]
  simp

theorem sound_tag {tag : String} {s : Text} : Sound (.tag tag) (.text s) ↔ s = tag.toList := by
  rw [Sound, throughout_scalar .tag, not_iff_comm]
  exact ⟨.tag, fun | .tag h => h⟩

theorem sound_orNull {k : Kind} {v : Value} (hv : v ≠ .null) : Sound (.orNull k) v ↔ Sound k v := by
  rw [Sound, throughout_orNull hv]
  exact and_iff_right nofun

theorem sound_list {k : Kind} {items : List Value} :
    Sound (.list k) (.list items) ↔ ∀ v ∈ items, Sound k v := by
  rw [Sound, throughout_list]
  exact and_iff_right nofun

theorem sound_entry {f : Form} {v : Value} (hf : Form.ofTag? v = some f) :
    Sound .entry v ↔ Sound (.record f) v := by
  rw [Sound, throughout_entry hf]
  exact and_iff_right fun | .untagged hnone => by simp [hf] at hnone

theorem not_sound_entry {v : Value} (hf : Form.ofTag? v = none) : ¬Sound .entry v :=
  fun h => h.self (.untagged hf)

/-- What a record has at a declared key is sound; a key it does not have is not required. -/
def KeySound (fields : List (Text × Value)) (key : Key) : Prop :=
  match fields.lookup key.name.toList with
  | some v => Sound key.kind v
  | none => key.default ≠ none

/-- A range of lines does not end before its start, as far as both are given. -/
def Ordered (fields : List (Text × Value)) : Prop :=
  ∀ m n, fields.lookup "start_line".toList = some (.number m) →
    fields.lookup "end_line".toList = some (.number n) → m ≤ n

/-- The faults of a record itself: a key that is missing, or the order of its lines. -/
theorem faultless_record {f : Form} {fields : List (Text × Value)} :
    ¬Fault (.record f) (.record fields) ↔
      (∀ key ∈ f.keys, key.default = none → fields.lookup key.name.toList ≠ none) ∧
        (f.isRange → Ordered fields) := by
  constructor
  · refine fun h => ⟨fun key hkey hd hnone => h (.missing hkey hd hnone), fun hf m n hm hn => ?_⟩
    by_contra hlt
    exact h (.order hf hm hn (by omega))
  · rintro ⟨hkeys, hord⟩ (_ | _ | _ | ⟨hkey, hd, hnone⟩ | ⟨hf, hm, hn, hlt⟩)
    · exact hkeys _ hkey hd hnone
    · have := hord hf _ _ hm hn
      omega

theorem sound_record {f : Form} {fields : List (Text × Value)} :
    Sound (.record f) (.record fields) ↔
      (∀ key ∈ f.keys, KeySound fields key) ∧ (f.isRange → Ordered fields) := by
  rw [Sound, throughout_record, faultless_record]
  constructor
  · rintro ⟨⟨hrequired, hord⟩, hkeys⟩
    refine ⟨fun key hkey => ?_, hord⟩
    unfold KeySound
    split
    · exact hkeys key hkey _ ‹_›
    · exact fun hd => hrequired key hkey hd ‹_›
  · rintro ⟨hkeys, hord⟩
    refine ⟨⟨fun key hkey hd hnone => ?_, hord⟩, fun key hkey v hv => ?_⟩
    · have h := hkeys key hkey
      rw [KeySound, hnone] at h
      exact h hd
    · have h := hkeys key hkey
      rwa [KeySound, hv] at h

end DocTree.Schema
