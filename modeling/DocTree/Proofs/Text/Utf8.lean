import DocTree.Proofs.Outcome
import DocTree.Text.Utf8

/-!
# UTF-8 there and back

Every text is what its bytes decode to, and bytes that decode to a text are the encoding of it. So
a text that is read and written back leaves the bytes as they were. Of the wide texts exactly the
texts are encoded.
-/
namespace DocTree.Text.Utf8

theorem toNat_toUInt8 {n : Nat} (h : n < 256) : n.toUInt8.toNat = n := by
  change (UInt8.ofNat n).toNat = n
  rw [UInt8.toNat_ofNat']
  exact Nat.mod_eq_of_lt h

def Within (range : Nat × Nat) (b : UInt8) : Prop :=
  range.1 ≤ b.toNat ∧ b.toNat ≤ range.2

inductive Spells : List UInt8 → Nat → Prop where
  | one {a : UInt8} {n : Nat} (ha : a.toNat < 0x80) (hn : n = a.toNat) : Spells [a] n
  | two {a b : UInt8} {n : Nat} (ha : 0xC2 ≤ a.toNat) (ha' : a.toNat < 0xE0)
      (hb : Within (0x80, 0xBF) b) (hn : n = (a.toNat - 0xC0) * 64 + (b.toNat - 0x80)) :
      Spells [a, b] n
  | three {a b c : UInt8} {n : Nat} (ha : 0xE0 ≤ a.toNat) (ha' : a.toNat < 0xF0)
      (hb : Within (secondRange a.toNat) b) (hc : Within (0x80, 0xBF) c)
      (hn : n = ((a.toNat - 0xE0) * 64 + (b.toNat - 0x80)) * 64 + (c.toNat - 0x80)) :
      Spells [a, b, c] n
  | four {a b c d : UInt8} {n : Nat} (ha : 0xF0 ≤ a.toNat) (ha' : a.toNat < 0xF5)
      (hb : Within (secondRange a.toNat) b) (hc : Within (0x80, 0xBF) c)
      (hd : Within (0x80, 0xBF) d)
      (hn : n = (((a.toNat - 0xF0) * 64 + (b.toNat - 0x80)) * 64 + (c.toNat - 0x80)) * 64 +
        (d.toNat - 0x80)) :
      Spells [a, b, c, d] n

theorem Spells.length_pos {bytes : List UInt8} {n : Nat} (h : Spells bytes n) :
    0 < bytes.length := by
  cases h <;> simp

/-- What the range of a second byte keeps out. -/
theorem within_secondRange_iff {a : Nat} {b : UInt8} :
    Within (secondRange a) b ↔ 0x80 ≤ b.toNat ∧ b.toNat ≤ 0xBF ∧ (a = 0xE0 → 0xA0 ≤ b.toNat) ∧
      (a = 0xED → b.toNat ≤ 0x9F) ∧ (a = 0xF0 → 0x90 ≤ b.toNat) ∧
      (a = 0xF4 → b.toNat ≤ 0x8F) := by
  unfold Within secondRange
  split
  · omega
  split
  · omega
  split
  · omega
  split <;> omega

/-- A character is spelt by its encoding. -/
theorem spells_encodeChar (c : Char) : Spells (encodeChar c) c.toNat := by
  have hvalid : c.toNat < 0xD800 ∨ 0xDFFF < c.toNat ∧ c.toNat < 0x110000 := c.valid
  unfold encodeChar
  generalize c.toNat = n at hvalid
  have hlast : (0x80 + n % 64).toUInt8.toNat = 0x80 + n % 64 := toNat_toUInt8 (by omega)
  have hthird : (0x80 + n / 64 % 64).toUInt8.toNat = 0x80 + n / 64 % 64 :=
    toNat_toUInt8 (by omega)
  have hsecond : (0x80 + n / 4096 % 64).toUInt8.toNat = 0x80 + n / 4096 % 64 :=
    toNat_toUInt8 (by omega)
  by_cases h1 : n < 0x80
  · have hfirst : n.toUInt8.toNat = n := toNat_toUInt8 (by omega)
    rw [if_pos h1]
    exact .one (by omega) hfirst.symm
  by_cases h2 : n < 0x800
  · have hfirst : (0xC0 + n / 64).toUInt8.toNat = 0xC0 + n / 64 := toNat_toUInt8 (by omega)
    rw [if_neg h1, if_pos h2]
    exact .two (by omega) (by omega) (by unfold Within; omega) (by omega)
  by_cases h3 : n < 0x10000
  · have hfirst : (0xE0 + n / 4096).toUInt8.toNat = 0xE0 + n / 4096 := toNat_toUInt8 (by omega)
    rw [if_neg h1, if_neg h2, if_pos h3]
    exact .three (by omega) (by omega) (within_secondRange_iff.mpr (by omega))
      (by unfold Within; omega) (by omega)
  · have hfirst : (0xF0 + n / 262144).toUInt8.toNat = 0xF0 + n / 262144 :=
      toNat_toUInt8 (by omega)
    rw [if_neg h1, if_neg h2, if_neg h3]
    exact .four (by omega) (by omega) (within_secondRange_iff.mpr (by omega))
      (by unfold Within; omega) (by unfold Within; omega) (by omega)

theorem toUInt8_eq {b : UInt8} {n : Nat} (h : n = b.toNat) : n.toUInt8 = b := by
  subst h
  exact UInt8.ofNat_toNat

/-- What is spelt is a character, and it has no other spelling. -/
theorem encodeChar_of_spells {bytes : List UInt8} {n : Nat} (h : Spells bytes n) :
    encodeChar (Char.ofNat n) = bytes := by
  have hchar : n.isValidChar → (Char.ofNat n).toNat = n := by
    intro hn
    rw [Char.ofNat, dif_pos hn]
    rfl
  unfold encodeChar
  cases h with
  | @one a _ ha hn =>
    rw [hchar (Or.inl (by omega)), if_pos (by omega), toUInt8_eq hn]
  | @two a b _ ha ha' hb hn =>
    obtain ⟨hb, hb'⟩ := hb
    simp only at hb hb'
    rw [hchar (Or.inl (by omega)), if_neg (by omega), if_pos (by omega)]
    rw [toUInt8_eq (b := a) (by omega), toUInt8_eq (b := b) (by omega)]
  | @three a b c _ ha ha' hb hc hn =>
    obtain ⟨hb, hb', he0, hed, -⟩ := within_secondRange_iff.mp hb
    obtain ⟨hc, hc'⟩ := hc
    simp only at hc hc'
    have hvalid : n.isValidChar := by
      unfold Nat.isValidChar
      omega
    rw [hchar hvalid, if_neg (by omega), if_neg (by omega), if_pos (by omega)]
    rw [toUInt8_eq (b := a) (by omega), toUInt8_eq (b := b) (by omega),
      toUInt8_eq (b := c) (by omega)]
  | @four a b c d _ ha ha' hb hc hd hn =>
    obtain ⟨hb, hb', -, -, hf0, hf4⟩ := within_secondRange_iff.mp hb
    obtain ⟨hc, hc'⟩ := hc
    obtain ⟨hd, hd'⟩ := hd
    simp only at hc hc' hd hd'
    have hvalid : n.isValidChar := by
      unfold Nat.isValidChar
      omega
    rw [hchar hvalid, if_neg (by omega), if_neg (by omega), if_neg (by omega)]
    rw [toUInt8_eq (b := a) (by omega), toUInt8_eq (b := b) (by omega),
      toUInt8_eq (b := c) (by omega), toUInt8_eq (b := d) (by omega)]

theorem leader?_one {n : Nat} (h : n < 0x80) : leader? n = some (0, n) := by
  simp [leader?, h]

theorem leader?_two {n : Nat} (h : 0xC2 ≤ n) (h' : n < 0xE0) :
    leader? n = some (1, n - 0xC0) := by
  have : ¬ n < 0x80 := by omega
  simp [leader?, *]

theorem leader?_three {n : Nat} (h : 0xE0 ≤ n) (h' : n < 0xF0) :
    leader? n = some (2, n - 0xE0) := by
  have : ¬ n < 0x80 := by omega
  have : ¬ n < 0xE0 := by omega
  simp [leader?, *]

theorem leader?_four {n : Nat} (h : 0xF0 ≤ n) (h' : n < 0xF5) :
    leader? n = some (3, n - 0xF0) := by
  have : ¬ n < 0x80 := by omega
  have : ¬ n < 0xE0 := by omega
  have : ¬ n < 0xF0 := by omega
  simp [leader?, *]

/-- The first bytes that are taken, by how many bytes are to follow. -/
theorem leader?_eq_some {n due bits : Nat} (h : leader? n = some (due, bits)) :
    (due = 0 ∧ n < 0x80 ∧ bits = n) ∨
      (due = 1 ∧ 0xC2 ≤ n ∧ n < 0xE0 ∧ bits = n - 0xC0) ∨
      (due = 2 ∧ 0xE0 ≤ n ∧ n < 0xF0 ∧ bits = n - 0xE0) ∨
      (due = 3 ∧ 0xF0 ≤ n ∧ n < 0xF5 ∧ bits = n - 0xF0) := by
  simp only [leader?, Bool.and_eq_true, decide_eq_true_eq] at h
  split at h
  · simp at h
    omega
  split at h
  · simp at h
    omega
  split at h
  · simp at h
    omega
  split at h
  · simp at h
    omega
  · simp at h

def Sequence.extended (q : Sequence) (b : UInt8) : Nat :=
  q.bits * 64 + (b.toNat - 0x80)

def Sequence.next (q : Sequence) (b : UInt8) : Sequence :=
  ⟨q.first, q.position, q.read + 1, q.due - 1, (0x80, 0xBF), q.extended b⟩

def Sequence.opened (b : UInt8) (position due bits : Nat) : Sequence :=
  ⟨b, position, 1, due, secondRange b.toNat, bits⟩

section

variable {position : Nat} {q : Sequence} {b : UInt8} {rest : List UInt8} {s : Text}

theorem decodeFrom_single {bits : Nat} (h : leader? b.toNat = some (0, bits)) :
    decodeFrom position none (b :: rest) =
      (decodeFrom (position + 1) none rest).map (Char.ofNat bits :: ·) := by
  simp [decodeFrom, h]

theorem decodeFrom_open {due bits : Nat} (h : leader? b.toNat = some (due + 1, bits)) :
    decodeFrom position none (b :: rest) =
      decodeFrom (position + 1) (some (.opened b position (due + 1) bits)) rest := by
  simp [decodeFrom, h, Sequence.opened]

theorem decodeFrom_last (hb : Within q.range b) (hq : q.due ≤ 1) :
    decodeFrom position (some q) (b :: rest) =
      (decodeFrom (position + 1) none rest).map (Char.ofNat (q.extended b) :: ·) := by
  have htake : (decide (q.range.1 ≤ b.toNat) && decide (b.toNat ≤ q.range.2)) = true := by
    simpa [Within] using hb
  rw [decodeFrom, if_pos htake, if_pos hq]
  rfl

theorem decodeFrom_next (hb : Within q.range b) (hq : 1 < q.due) :
    decodeFrom position (some q) (b :: rest) =
      decodeFrom (position + 1) (some (q.next b)) rest := by
  have htake : (decide (q.range.1 ≤ b.toNat) && decide (b.toNat ≤ q.range.2)) = true := by
    simpa [Within] using hb
  rw [decodeFrom, if_pos htake, if_neg (by omega)]
  rfl

/-- An open sequence takes a byte in its range, or the bytes are refused. -/
theorem exists_within_of_decodeFrom {bytes : List UInt8}
    (h : decodeFrom position (some q) bytes = .ok s) :
    ∃ b rest, bytes = b :: rest ∧ Within q.range b := by
  cases bytes with
  | nil => simp [decodeFrom] at h
  | cons b rest =>
    refine ⟨b, rest, rfl, ?_⟩
    rw [decodeFrom] at h
    split at h
    · rename_i htake
      simpa [Within] using htake
    · cases h

end

/-- A spelling is read as its character. -/
theorem decodeFrom_of_spells {bytes : List UInt8} {n : Nat} (h : Spells bytes n) (position : Nat)
    (rest : List UInt8) :
    ∃ next, decodeFrom position none (bytes ++ rest) =
      (decodeFrom next none rest).map (Char.ofNat n :: ·) := by
  cases h with
  | @one a _ ha hn =>
    subst hn
    exact ⟨_, decodeFrom_single (leader?_one ha)⟩
  | @two a b _ ha ha' hb hn =>
    have hwithin : Within (secondRange a.toNat) b :=
      within_secondRange_iff.mpr ⟨hb.1, hb.2, by omega, by omega, by omega, by omega⟩
    refine ⟨position + 1 + 1, ?_⟩
    rw [List.cons_append, List.cons_append, List.nil_append,
      decodeFrom_open (leader?_two ha ha'), decodeFrom_last hwithin (Nat.le_refl 1), hn]
    rfl
  | @three a b c _ ha ha' hb hc hn =>
    refine ⟨position + 1 + 1 + 1, ?_⟩
    rw [List.cons_append, List.cons_append, List.cons_append, List.nil_append,
      decodeFrom_open (leader?_three ha ha'), decodeFrom_next hb (Nat.lt_succ_self 1),
      decodeFrom_last hc (Nat.le_refl 1), hn]
    rfl
  | @four a b c d _ ha ha' hb hc hd hn =>
    refine ⟨position + 1 + 1 + 1 + 1, ?_⟩
    rw [List.cons_append, List.cons_append, List.cons_append, List.cons_append, List.nil_append,
      decodeFrom_open (leader?_four ha ha'), decodeFrom_next hb (show 1 < 3 from by decide),
      decodeFrom_next hc (Nat.lt_succ_self 1), decodeFrom_last hd (Nat.le_refl 1), hn]
    rfl

/-- What is read begins with a character and its spelling. -/
theorem exists_spells_of_decodeFrom {position : Nat} {b : UInt8} {bytes : List UInt8} {s : Text}
    (h : decodeFrom position none (b :: bytes) = .ok s) :
    ∃ taken n rest, b :: bytes = taken ++ rest ∧ Spells taken n := by
  cases hlead : leader? b.toNat with
  | none => simp [decodeFrom, hlead] at h
  | some lead =>
    obtain ⟨due, bits⟩ := lead
    rcases leader?_eq_some hlead with h0 | h1 | h2 | h3
    · exact ⟨[b], _, bytes, rfl, .one h0.2.1 rfl⟩
    · obtain ⟨hdue, hb, hb', -⟩ := h1
      subst hdue
      rw [decodeFrom_open hlead] at h
      obtain ⟨c, rest, rfl, hc⟩ := exists_within_of_decodeFrom h
      obtain ⟨hlow, hhigh, -⟩ := within_secondRange_iff.mp hc
      exact ⟨[b, c], _, rest, rfl, .two hb hb' ⟨hlow, hhigh⟩ rfl⟩
    · obtain ⟨hdue, hb, hb', -⟩ := h2
      subst hdue
      rw [decodeFrom_open hlead] at h
      obtain ⟨c, rest, rfl, hc⟩ := exists_within_of_decodeFrom h
      rw [decodeFrom_next hc (Nat.lt_succ_self 1)] at h
      obtain ⟨d, rest, rfl, hd⟩ := exists_within_of_decodeFrom h
      exact ⟨[b, c, d], _, rest, rfl, .three hb hb' hc hd rfl⟩
    · obtain ⟨hdue, hb, hb', -⟩ := h3
      subst hdue
      rw [decodeFrom_open hlead] at h
      obtain ⟨c, rest, rfl, hc⟩ := exists_within_of_decodeFrom h
      rw [decodeFrom_next hc (show 1 < 3 from by decide)] at h
      obtain ⟨d, rest, rfl, hd⟩ := exists_within_of_decodeFrom h
      rw [decodeFrom_next hd (Nat.lt_succ_self 1)] at h
      obtain ⟨e, rest, rfl, he⟩ := exists_within_of_decodeFrom h
      exact ⟨[b, c, d, e], _, rest, rfl, .four hb hb' hc hd he rfl⟩

theorem decodeFrom_encode (s : Text) (position : Nat) :
    decodeFrom position none (encode s) = .ok s := by
  induction s generalizing position with
  | nil => rfl
  | cons c s ih =>
    obtain ⟨next, hnext⟩ := decodeFrom_of_spells (spells_encodeChar c) position (encode s)
    rw [ih, Char.ofNat_toNat] at hnext
    exact hnext

/-- A text is what its encoding decodes to. -/
@[simp] theorem decode_encode (s : Text) : decode (encode s) = .ok s :=
  decodeFrom_encode s 0

/-- Texts with the same bytes are the same. -/
theorem encode_inj {s t : Text} (h : encode s = encode t) : s = t := by
  have hs := decode_encode s
  rw [h, decode_encode] at hs
  exact (Except.ok.inj hs).symm

theorem encode_of_decodeFrom {position : Nat} {bytes : List UInt8} {s : Text}
    (h : decodeFrom position none bytes = .ok s) : encode s = bytes := by
  -- by the number of bytes, one character at a time
  induction hlen : bytes.length using Nat.strongRecOn generalizing position bytes s with
  | ind size ih =>
    cases bytes with
    | nil =>
      cases h
      rfl
    | cons b bytes =>
      obtain ⟨taken, n, rest, hsplit, hspells⟩ := exists_spells_of_decodeFrom h
      obtain ⟨next, hnext⟩ := decodeFrom_of_spells hspells position rest
      rw [hsplit, hnext] at h
      obtain ⟨s', hs', rfl⟩ := map_eq_ok.mp h
      have hshort : rest.length < size := by
        have htaken := hspells.length_pos
        have := congrArg List.length hsplit
        simp only [List.length_append] at this
        omega
      rw [hsplit, ← ih rest.length hshort hs' rfl, ← encodeChar_of_spells hspells]
      rfl

/-- Bytes that decode to a text are its encoding. -/
theorem encode_of_decode {bytes : List UInt8} {s : Text} (h : decode bytes = .ok s) :
    encode s = bytes :=
  encode_of_decodeFrom h

/-- A character has the bytes that it has in a string. -/
theorem encodeChar_eq (c : Char) : encodeChar c = String.utf8EncodeChar c := by
  have hvalid : c.toNat < 0xD800 ∨ 0xDFFF < c.toNat ∧ c.toNat < 0x110000 := c.valid
  have hval : c.val.toNat = c.toNat := rfl
  unfold encodeChar String.utf8EncodeChar
  rw [hval]
  generalize c.toNat = n at hvalid
  simp only [Nat.toUInt8]
  by_cases h1 : n < 0x80
  · rw [if_pos h1, if_pos (by omega)]
  by_cases h2 : n < 0x800
  · rw [if_neg h1, if_pos h2, if_neg (by omega), if_pos (by omega)]
    rw [show 0xC0 + n / 64 = n / 64 % 32 + 192 by omega, Nat.add_comm 0x80]
  by_cases h3 : n < 0x10000
  · rw [if_neg h1, if_neg h2, if_pos h3, if_neg (by omega), if_neg (by omega), if_pos (by omega)]
    rw [show 0xE0 + n / 4096 = n / 4096 % 16 + 224 by omega, Nat.add_comm 0x80, Nat.add_comm 0x80]
  · rw [if_neg h1, if_neg h2, if_neg h3, if_neg (by omega), if_neg (by omega), if_neg (by omega)]
    rw [show 0xF0 + n / 262144 = n / 262144 % 8 + 240 by omega, Nat.add_comm 0x80,
      Nat.add_comm 0x80, Nat.add_comm 0x80]

theorem toByteArray_encode (s : Text) : (encode s).toByteArray = s.utf8Encode := by
  rw [encode, List.utf8Encode, funext encodeChar_eq]

theorem eq_encode_iff {bytes : List UInt8} {s : Text} :
    bytes.toByteArray = s.utf8Encode ↔ bytes = encode s := by
  rw [← toByteArray_encode, List.toByteArray_inj]

/-- The bytes that are decoded are those that a string can have. -/
theorem isValidUTF8_iff {bytes : List UInt8} :
    bytes.toByteArray.IsValidUTF8 ↔ ∃ s, decode bytes = .ok s := by
  constructor
  · rintro ⟨s, hs⟩
    exact ⟨s, by rw [eq_encode_iff.mp hs, decode_encode]⟩
  · rintro ⟨s, hs⟩
    exact ⟨s, eq_encode_iff.mpr (encode_of_decode hs).symm⟩

/-- A wide text is a text up to its first surrogate, if it has one. -/
theorem exists_wide (s : WideText) :
    (∃ t : Text, s = t.wide) ∨ ∃ (before : Text) (n : Fin 2048) (rest : WideText),
      s = before.wide ++ .surrogate n :: rest := by
  induction s with
  | nil => exact .inl ⟨[], rfl⟩
  | cons p s ih =>
    cases p with
    | surrogate n => exact .inr ⟨[], n, s, rfl⟩
    | char c =>
      obtain ⟨t, rfl⟩ | ⟨before, n, rest, rfl⟩ := ih
      · exact .inl ⟨c :: t, rfl⟩
      · exact .inr ⟨c :: before, n, rest, rfl⟩

theorem wide_ne_surrogate {s before : Text} {n : Fin 2048} {rest : WideText} :
    s.wide ≠ before.wide ++ .surrogate n :: rest := by
  intro h
  have hmem : CodePoint.surrogate n ∈ s.wide := by
    rw [h]
    simp
  obtain ⟨c, -, hc⟩ := List.mem_map.mp hmem
  cases hc

theorem encodeFrom_wide (s : Text) (position : Nat) :
    encodeFrom position s.wide = .ok (encode s) := by
  induction s generalizing position with
  | nil => rfl
  | cons c s ih =>
    change (encodeFrom (position + 1) (wide s)).map (encodeChar c ++ ·) = _
    rw [ih]
    rfl

@[simp] theorem encodeWide_wide (s : Text) : encodeWide s.wide = .ok (encode s) :=
  encodeFrom_wide s 0

theorem encodeFrom_surrogate (before : Text) (n : Fin 2048) (rest : WideText) (position : Nat) :
    encodeFrom position (before.wide ++ .surrogate n :: rest) =
      .error ⟨n, position + before.length, (rest.takeWhile CodePoint.isSurrogate).length + 1⟩ := by
  induction before generalizing position with
  | nil => rfl
  | cons c before ih =>
    change (encodeFrom (position + 1) (wide before ++ .surrogate n :: rest)).map _ = _
    rw [ih, List.length_cons, Nat.add_right_comm, Nat.add_assoc]
    rfl

theorem encodeWide_surrogate (before : Text) (n : Fin 2048) (rest : WideText) :
    encodeWide (before.wide ++ .surrogate n :: rest) =
      .error ⟨n, before.length, (rest.takeWhile CodePoint.isSurrogate).length + 1⟩ := by
  rw [encodeWide, encodeFrom_surrogate, Nat.zero_add]

end DocTree.Text.Utf8
