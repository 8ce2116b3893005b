import DocTree.Proofs.Batch.Step
import DocTree.Proofs.Edit.Apply
import DocTree.Proofs.Edit.Wide

/-!
# The bytes of a file under edit

A file is read and written back byte by byte: what is no part of an edit comes back as it was,
whatever breaks or marks it holds. Bytes that are no text are met when the file is read, before
anything is written. A surrogate in a block is met only when the file is open for writing, and empty.
-/
namespace DocTree

/-- Without edits a text stays as it is. -/
@[simp] theorem Text.edited_nil (s : Text) : s.edited [] = s := by
  change (Draft.ofText s).toText = s
  rw [(Draft.hasRows_ofText s).toText, Text.join_rows]

namespace FileSystem

variable {fs : FileSystem} {path : Text} {place : List Text} {s : Text}
  {edits : List (Edit CodePoint)}

/-- A text is written in the same way when it is taken as a wide one. -/
theorem writeWide_wide (fs : FileSystem) (path s : Text) :
    fs.writeWide path s.wide =
      match fs.writeText path s with
      | .ok written => (written, none)
      | .error fault => (fs, some fault) := by
  cases hwrite : fs.writeBytes path (Text.Utf8.encode s) <;> simp [writeWide, writeText, hwrite]

theorem Holds.editWide (h : fs.Holds path place s) {t : Text} (ht : s.editedWide edits = t.wide) :
    fs.editWide path edits = (fs.written place t, none) := by
  simp [FileSystem.editWide, h.readText, ht, writeWide_wide, h.writeText]

/-- The file is emptied before the first surrogate is met. -/
theorem Holds.editWide_surrogate (h : fs.Holds path place s) {before : Text} {n : Fin 2048}
    {rest : WideText} (hs : s.editedWide edits = before.wide ++ .surrogate n :: rest) :
    fs.editWide path edits = (fs.written place [], some (.unencodable
      ⟨n, before.length, (rest.takeWhile CodePoint.isSurrogate).length + 1⟩)) := by
  have hopen : fs.writeBytes path [] = .ok (fs.written place []) := h.writeText []
  simp [FileSystem.editWide, h.readText, writeWide, hs, Text.Utf8.encodeWide_surrogate, hopen]

/-- With blocks of characters it is the plain edit. -/
theorem editWide_wide (fs : FileSystem) (e : FileEdit) :
    fs.editWide e.filename (e.edits.map Edit.wide) =
      match fs.edit e with
      | .ok fs' => (fs', none)
      | .error fault => (fs, some fault) := by
  cases hread : fs.readText e.filename with
  | error fault => simp [FileSystem.editWide, FileSystem.edit, hread, bind, Except.bind]
  | ok s =>
    have hwide : fs.editWide e.filename (e.edits.map Edit.wide) =
        fs.writeWide e.filename (s.edited e.edits).wide := by
      simp [FileSystem.editWide, hread, Text.editedWide_wide]
    have hedit : fs.edit e = fs.writeText e.filename (s.edited e.edits) := by
      simp [FileSystem.edit, hread, bind, Except.bind]
    exact hwide.trans (hedit ▸ writeWide_wide fs e.filename (s.edited e.edits))

theorem editWide_refused {fault : Fault} (h : fs.readText path = .error fault) :
    fs.editWide path edits = (fs, some fault) := by
  rw [FileSystem.editWide, h]

end FileSystem

namespace Batch

open FileSystem

variable {fs : FileSystem} {e : FileEdit}

/-- One task alone reads its file and then writes it. -/
theorem follow_holds {place : List Text} {s : Text} (h : fs.Holds e.filename place s) :
    (start fs [e]).follow [0, 0] = ⟨fs.written place (s.edited e.edits), [⟨e, .ended⟩], []⟩ := by
  have hread : (start fs [e]).advance 0 = ⟨fs, [⟨e, .holding s⟩], []⟩ := by
    simp [start, advance, Task.step, h.readText, Except.map]
  have hwrite : advance ⟨fs, [⟨e, .holding s⟩], []⟩ 0 =
      ⟨fs.written place (s.edited e.edits), [⟨e, .ended⟩], []⟩ := by
    simp [advance, Task.step, h.writeText, Except.map]
  rw [follow_cons, follow_cons, follow_nil, hread, hwrite]

/-- One task alone that cannot read its file does nothing else. -/
theorem follow_refused {fault : Fault} (h : fs.readText e.filename = .error fault) :
    (start fs [e]).follow [0, 0] = ⟨fs, [⟨e, .ended⟩], [fault]⟩ := by
  have hread : (start fs [e]).advance 0 = ⟨fs, [⟨e, .ended⟩], [fault]⟩ := by
    simp [start, advance, Task.step, h, Except.map]
  have hend : advance ⟨fs, [⟨e, .ended⟩], [fault]⟩ 0 = ⟨fs, [⟨e, .ended⟩], [fault]⟩ := by
    simp [advance, Task.step]
  rw [follow_cons, follow_cons, follow_nil, hread, hend]

/-- The edit of a file by its bytes. If they are those of a text and what the edits make of it is a text
again, the file then holds the encoding of that, and without edits nothing has changed. Otherwise it has
a first surrogate, at which the edit fails when the file is emptied already. If the bytes are those of no
text, the edit fails before it opens the file for writing, and nothing has changed. With blocks of
characters it is the edit in two steps, and there is no surrogate. -/
theorem editWide_exact {filename : Text} {bytes : List UInt8} (h : fs.readBytes filename = .ok bytes)
    (edits : List (Edit CodePoint)) :
    (∀ s : Text, bytes.toByteArray = s.utf8Encode →
      (∀ t : Text, s.editedWide edits = t.wide →
        ∃ written after, fs.editWide filename edits = (written, none) ∧
          written.readBytes filename = .ok after ∧ after.toByteArray = t.utf8Encode) ∧
      (∀ (before : Text) (n : Fin 2048) (rest : WideText),
        s.editedWide edits = before.wide ++ .surrogate n :: rest →
        ∃ emptied, fs.editWide filename edits = (emptied, some (.unencodable
            ⟨n, before.length, (rest.takeWhile CodePoint.isSurrogate).length + 1⟩)) ∧
          emptied.readBytes filename = .ok []) ∧
      ((∃ t : Text, s.editedWide edits = t.wide) ∨ ∃ (before : Text) (n : Fin 2048) (rest : WideText),
        s.editedWide edits = before.wide ++ .surrogate n :: rest) ∧
      (edits = [] → fs.editWide filename edits = (fs, none))) ∧
    (¬ bytes.toByteArray.IsValidUTF8 →
      ∃ fault, fs.editWide filename edits = (fs, some (.undecodable fault))) ∧
    ∀ es : List Edit, edits = es.map Edit.wide →
      let b := (start fs [⟨filename, es⟩]).follow [0, 0]
      b.IsFinished ∧ fs.editWide filename edits = (b.fileSystem, b.faults.head?) ∧
        ∀ s : Text, s.editedWide edits = (s.edited es).wide := by
  cases hdecode : Text.Utf8.decode bytes with
  | ok s =>
    have hbytes : bytes = Text.Utf8.encode s := (Text.Utf8.encode_of_decode hdecode).symm
    obtain ⟨place, hholds⟩ := exists_holds_of_readBytes (hbytes ▸ h)
    have hvalid := Text.Utf8.isValidUTF8_iff.mpr ⟨s, hdecode⟩
    refine ⟨?_, fun hno => absurd hvalid hno, ?_⟩
    · intro s' hs'
      obtain rfl : s = s' := Text.Utf8.encode_inj (hbytes.symm.trans (Text.Utf8.eq_encode_iff.mp hs'))
      refine ⟨fun t ht => ?_, fun before n rest hs => ?_, Text.Utf8.exists_wide _, fun hnone => ?_⟩
      · exact ⟨_, _, hholds.editWide ht, (hholds.written t).readBytes, Text.Utf8.toByteArray_encode t⟩
      · exact ⟨_, hholds.editWide_surrogate hs, (hholds.written []).readBytes⟩
      · subst hnone
        have hsame : s.editedWide [] = s.wide := by
          rw [← List.map_nil, Text.editedWide_wide, Text.edited_nil]
        rw [hholds.editWide hsame, hholds.written_self]
    · rintro es rfl
      have hedit : fs.edit ⟨filename, es⟩ = .ok (fs.written place (s.edited es)) := hholds.edit
      rw [follow_holds (e := ⟨filename, es⟩) hholds, editWide_wide fs ⟨filename, es⟩, hedit]
      exact ⟨by simp [IsFinished], rfl, fun s => Text.editedWide_wide s es⟩
  | error fault =>
    have hread := readText_undecodable h hdecode
    refine ⟨fun s hs => ?_, fun _ => ⟨fault, editWide_refused hread⟩, ?_⟩
    · rw [Text.Utf8.eq_encode_iff.mp hs, Text.Utf8.decode_encode] at hdecode
      cases hdecode
    · rintro es rfl
      rw [follow_refused (e := ⟨filename, es⟩) hread, editWide_refused hread]
      exact ⟨by simp [IsFinished], rfl, fun s => Text.editedWide_wide s es⟩

/-- A mark of byte order, a return, a null character, a return with a feed and a non-character at
the end without a break: all are there after an edit between them. A surrogate is refused among the
bytes, and in a block once it is known that it stays. -/
theorem editWide_exact_mixed :
    let text : Text := [Char.ofNat 0xFEFF, 'a', '\r', Char.ofNat 0, '\r', '\n', Char.ofNat 0xFFFE]
    let bytes : List UInt8 := [0xEF, 0xBB, 0xBF, 0x61, 0x0D, 0x00, 0x0D, 0x0A, 0xEF, 0xBF, 0xBE]
    let fs : FileSystem := ⟨.directory [
      ("a.md".toList, .file bytes), ("b.md".toList, .file [0x61, 0xED, 0xA0, 0x80])], []⟩
    let new : Edit := ⟨{ start := 2 }, "new".toList⟩
    let half : Edit CodePoint := ⟨{ start := 2 }, [.char 'x', .surrogate 1279]⟩
    bytes.toByteArray = text.utf8Encode ∧
    (∃ written after, fs.editWide "a.md".toList [new.wide] = (written, none) ∧
      written.readBytes "a.md".toList = .ok after ∧
      after = bytes.take 5 ++ [0x6E, 0x65, 0x77, 0x0A] ++ bytes.drop 5) ∧
    fs.editWide "a.md".toList [] = (fs, none) ∧
    (∃ emptied, fs.editWide "a.md".toList [half] = (emptied, some (.unencodable ⟨1279, 4, 1⟩)) ∧
      emptied.readBytes "a.md".toList = .ok []) ∧
    ∃ fault, fs.editWide "b.md".toList [] = (fs, some (.undecodable fault)) := by
  intro text bytes fs new half
  have hbytes : bytes.toByteArray = text.utf8Encode :=
    Text.Utf8.eq_encode_iff.mpr (by decide +kernel)
  have hread : fs.readBytes "a.md".toList = .ok bytes := by decide +kernel
  have hbad : fs.readBytes "b.md".toList = .ok [0x61, 0xED, 0xA0, 0x80] := by decide +kernel
  have hrefused : Text.Utf8.decode [0x61, 0xED, 0xA0, 0x80] =
      .error ⟨0xED, 1, 1, .continuationByte⟩ := by decide +kernel
  have hinvalid : ¬ ([0x61, 0xED, 0xA0, 0x80] : List UInt8).toByteArray.IsValidUTF8 := by
    rw [Text.Utf8.isValidUTF8_iff, hrefused]
    simp
  have hhalf : text.editedWide [half] =
      Text.wide [Char.ofNat 0xFEFF, 'a', '\r', 'x'] ++ .surrogate 1279 ::
        Text.wide ['\n', Char.ofNat 0, '\r', '\n', Char.ofNat 0xFFFE] := by decide +kernel
  obtain ⟨hedited, -, -⟩ := (editWide_exact hread [new.wide]).1 text hbytes
  obtain ⟨written, after, hwritten, hafter, hafterBytes⟩ :=
    hedited _ (Text.editedWide_wide text [new])
  obtain ⟨-, -, -, hsame⟩ := (editWide_exact hread []).1 text hbytes
  obtain ⟨-, hempties, -⟩ := (editWide_exact hread [half]).1 text hbytes
  obtain ⟨-, hfails, -⟩ := editWide_exact hbad []
  refine ⟨hbytes, ⟨written, after, hwritten, hafter, ?_⟩, hsame rfl, hempties _ _ _ hhalf,
    hfails hinvalid⟩
  rw [Text.Utf8.eq_encode_iff.mp hafterBytes]
  decide +kernel

/-- A file of one line, and a lone surrogate to be put in front of it: nothing is left of the line. -/
theorem editWide_not_exact :
    let fs : FileSystem := ⟨.directory [("a.md".toList, .file [0x78, 0x0A])], []⟩
    let half : Edit CodePoint := ⟨{ start := 1 }, [.surrogate 1279]⟩
    (∃ emptied, fs.editWide "a.md".toList [half] = (emptied, some (.unencodable ⟨1279, 0, 1⟩)) ∧
      emptied.readBytes "a.md".toList = .ok []) ∧
    Fault.message (.unencodable ⟨1279, 0, 1⟩) =
      "'utf-8' codec can't encode character '\\udcff' in position 0: surrogates not allowed".toList ∧
    ∀ t : Text, Text.editedWide "x\n".toList [half] ≠ t.wide := by
  intro fs half
  have hread : fs.readBytes "a.md".toList = .ok (Text.Utf8.encode "x\n".toList) := by decide +kernel
  have hhalf : Text.editedWide "x\n".toList [half] =
      Text.wide [] ++ .surrogate 1279 :: Text.wide ['\n', 'x', '\n'] := by decide +kernel
  obtain ⟨place, hholds⟩ := exists_holds_of_readBytes hread
  refine ⟨⟨fs.written place [], ?_, (hholds.written []).readBytes⟩, by decide +kernel,
    fun t ht => Text.Utf8.wide_ne_surrogate (ht.symm.trans hhalf)⟩
  exact hholds.editWide_surrogate hhalf

end Batch

end DocTree
