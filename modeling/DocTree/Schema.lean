import DocTree.Document
import DocTree.Edit
import DocTree.Value

/-!
# Data forms

How spans, edits, sections, documents and directories are written as values, and how values are
read back. Reading checks line numbers, heading levels and tags; what is absent has its default.
-/
namespace DocTree

def Value.toNumberFrom (least : Nat) (v : Value) : Checked Nat :=
  v.toNumber.bind fun n =>
    if n < least then
      Checked.problem ("Input should be greater than or equal to ".toList ++ Text.ofNat least)
    else .ok n.toNat

def Span.ofLines (start : Nat) (stop : Option Int) : Checked Span :=
  if h : 0 < start then
    match stop with
    | none => .ok { start }
    | some n =>
      if h' : (start : Int) ≤ n then
        .ok { start, stop := some n.toNat, start_le_stop := by simp; omega }
      else
        .problem ("Value error, end_line ".toList ++ Text.ofInt n ++
          " precedes start_line ".toList ++ Text.ofNat start)
  else .problem "Input should be greater than or equal to 1".toList

/-- The line numbers of a span, not yet compared. -/
def Span.numbers (fields : List (Text × Value)) : Checked (Nat × Option Int) :=
  Checked.map₂ Prod.mk
    (Value.required fields "start_line" (Value.toNumberFrom 1))
    (Value.optional fields "end_line" none (Value.orNull Value.toNumber))

def Span.ofValue (v : Value) : Checked Span := do
  let fields ← v.toRecord "Span"
  let (start, stop) ← Span.numbers fields
  Span.ofLines start stop

def Span.fields (s : Span) : List (Text × Value) :=
  [("start_line".toList, .number s.start),
    ("end_line".toList, (s.stop.map fun n => Value.number n).getD .null)]

def Span.toValue (s : Span) : Value :=
  .record s.fields

def Edit.ofValue (v : Value) : Checked Edit := do
  let fields ← v.toRecord "TextMutation"
  let ((start, stop), content) ← Checked.map₂ Prod.mk (Span.numbers fields)
    (Value.required fields "new_content" Value.toText)
  return ⟨← Span.ofLines start stop, content⟩

def Edit.toValue (e : Edit) : Value :=
  .record (e.span.fields ++ [("new_content".toList, .text e.content)])

def FileEdit.ofValue (v : Value) : Checked FileEdit := do
  let fields ← v.toRecord "FileMutation"
  Checked.map₂ FileEdit.mk (Value.required fields "filename" Value.toText)
    (Value.optional fields "mutations" [] (Value.toList Edit.ofValue))

def FileEdit.toValue (f : FileEdit) : Value :=
  .record [("filename".toList, .text f.filename),
    ("mutations".toList, .list (f.edits.map Edit.toValue))]

def Value.toLevel (v : Value) : Checked Int :=
  v.toNumber.bind fun n =>
    match LevelFault.of? n with
    | some fault => Checked.problem fault.message.toList
    | none => .ok n

/-- Reads a section that nests at most so deep. -/
def Section.ofValueWithin : Nat → Value → Checked Section
  | 0, _ => .error []
  | depth + 1, v => do
    let fields ← v.toRecord "Section"
    let tagged := Checked.map₂ (fun _ level => level)
      (Value.optional fields "type" () (Value.hasTag "section"))
      (Value.required fields "level" Value.toLevel)
    let titled := Checked.map₂ Section.mk tagged (Value.required fields "title" Value.toText)
    let anchored := Checked.map₂ (· ·) titled (Value.required fields "anchor" Value.toText)
    let named := Checked.map₂ (· ·) anchored (Value.required fields "filename" Value.toText)
    Checked.map₂ (· ·) named
      (Value.optional fields "children" [] (Value.toList (Section.ofValueWithin depth)))

def Section.ofValue (v : Value) : Checked Section :=
  Section.ofValueWithin (v.depth + 1) v

mutual

def Section.toValue : Section → Value
  | .mk level title anchor filename children =>
    .record [("type".toList, .text "section".toList), ("level".toList, .number level),
      ("title".toList, .text title), ("anchor".toList, .text anchor),
      ("filename".toList, .text filename), ("children".toList, .list (Section.toValues children))]

def Section.toValues : List Section → List Value
  | [] => []
  | s :: rest => s.toValue :: Section.toValues rest

end

/-- Reads a document. Its page has to be there as a tree, though it is not written. -/
def Document.ofValue (v : Value) : Checked Document := do
  let fields ← v.toRecord "Document"
  let named := Checked.map₂ (fun _ name => name)
    (Value.optional fields "type" () (Value.hasTag "document"))
    (Value.required fields "filename" Value.toText)
  let titled := Checked.map₂ Document.mk named (Value.required fields "title" Value.toText)
  let divided := Checked.map₂ (· ·) titled
    (Value.optional fields "sections" [] (Value.toList Section.ofValue))
  let parsed := Checked.map₂ (· ·) divided (Value.required fields "tree" Value.toTree)
  Checked.map₂ (· ·) parsed (Value.optional fields "line_count" 0 (Value.toNumberFrom 0))

def Document.toValue (d : Document) : Value :=
  .record [("type".toList, .text "document".toList), ("filename".toList, .text d.filename),
    ("title".toList, .text d.title), ("sections".toList, .list (Section.toValues d.sections)),
    ("line_count".toList, .number d.lineCount)]

def Entry.ofTagged (directory : Value → Checked Entry) (v : Value) : Checked Entry :=
  match v with
  | .record fields =>
    match fields.lookup "type".toList with
    | none => .problem "Unable to extract tag using discriminator 'type'".toList
    | some tag =>
      let name := match tag with
        | .text s => s
        | _ => "None".toList
      if name = "directory".toList then Checked.within name (directory v)
      else if name = "document".toList then Checked.within name ((Document.ofValue v).map .document)
      else
        .problem ("Input tag '".toList ++ name ++ "' found using 'type' does not match ".toList ++
          "any of the expected tags: 'directory', 'document'".toList)
  | _ => .problem "Input should be a valid dictionary or object to extract fields from".toList

def Entry.directoryWithin : Nat → Value → Checked Entry
  | 0, _ => .error []
  | depth + 1, v => do
    let fields ← v.toRecord "Directory"
    let named := Checked.map₂ (fun _ name => name)
      (Value.optional fields "type" () (Value.hasTag "directory"))
      (Value.required fields "filename" Value.toText)
    let titled := Checked.map₂ Entry.directory named (Value.required fields "title" Value.toText)
    let filled := Checked.map₂ (· ·) titled
      (Value.optional fields "entries" []
        (Value.toList (Entry.ofTagged (Entry.directoryWithin depth))))
    Checked.map₂ (· ·) filled
      (Value.optional fields "root_document" none (Value.orNull Document.ofValue))

def Entry.directoryOfValue (v : Value) : Checked Entry :=
  Entry.directoryWithin (v.depth + 1) v

mutual

def Entry.toValue : Entry → Value
  | .document d => d.toValue
  | .directory filename title entries root =>
    .record [("type".toList, .text "directory".toList), ("filename".toList, .text filename),
      ("title".toList, .text title), ("entries".toList, .list (Entry.toValues entries)),
      ("root_document".toList, (root.map Document.toValue).getD .null)]

def Entry.toValues : List Entry → List Value
  | [] => []
  | e :: rest => e.toValue :: Entry.toValues rest

end

/-- Reads a value as one of the forms above and writes it again with every default filled in. -/
def Value.normalize? (model : Text) (v : Value) : Option (Checked Value) :=
  if model = "Span".toList then some ((Span.ofValue v).map Span.toValue)
  else if model = "TextMutation".toList then some ((Edit.ofValue v).map Edit.toValue)
  else if model = "FileMutation".toList then some ((FileEdit.ofValue v).map FileEdit.toValue)
  else if model = "Section".toList then some ((Section.ofValue v).map Section.toValue)
  else if model = "Document".toList then some ((Document.ofValue v).map Document.toValue)
  else if model = "Directory".toList then some ((Entry.directoryOfValue v).map Entry.toValue)
  else none

end DocTree
