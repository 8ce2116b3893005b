import DocTree.Markdown.Page

/-!
# Values

Data with named fields, in which spans, edits, sections and documents are exchanged. Numbers are
whole and have no bound. A document brings its parsed page along, which no writing of it shows. A
value is read into a type of this library by collecting every problem it has, each with the place
where it was met.
-/
namespace DocTree

inductive Value where
  | null
  | bool (b : Bool)
  | number (n : Int)
  | text (s : Text)
  | tree (page : Markdown.Page)
  | list (items : List Value)
  | record (fields : List (Text × Value))
  deriving Repr

mutual

def Value.depth : Value → Nat
  | .list items => Value.depthOfItems items + 1
  | .record fields => Value.depthOfFields fields + 1
  | _ => 0

def Value.depthOfItems : List Value → Nat
  | [] => 0
  | v :: rest => max v.depth (Value.depthOfItems rest)

def Value.depthOfFields : List (Text × Value) → Nat
  | [] => 0
  | (_, v) :: rest => max v.depth (Value.depthOfFields rest)

end

mutual

/-- The value with a tree supplied to each record. -/
def Value.withTree (page : Markdown.Page) : Value → Value
  | .list items => .list (Value.itemsWithTree page items)
  | .record fields => .record (("tree".toList, .tree page) :: Value.fieldsWithTree page fields)
  | v => v

def Value.itemsWithTree (page : Markdown.Page) : List Value → List Value
  | [] => []
  | v :: rest => v.withTree page :: Value.itemsWithTree page rest

def Value.fieldsWithTree (page : Markdown.Page) : List (Text × Value) → List (Text × Value)
  | [] => []
  | (name, v) :: rest => (name, v.withTree page) :: Value.fieldsWithTree page rest

end

/-- Something wrong with a value, and the way to it from the outside. -/
structure Problem where
  place : List Text
  message : Text
  deriving DecidableEq, Repr

def Problem.report (problems : List Problem) : Text :=
  List.intercalate "; ".toList <| problems.map fun p =>
    List.intercalate ['.'] p.place ++ ": ".toList ++ p.message

/-- A result, or the problems that prevent it. -/
abbrev Checked (α : Type) := Except (List Problem) α

namespace Checked

variable {α β γ : Type}

def problem (message : Text) : Checked α :=
  .error [⟨[], message⟩]

/-- Moves the problems of a part to its place in the whole. -/
def within (step : Text) : Checked α → Checked α
  | .ok a => .ok a
  | .error problems => .error (problems.map fun p => { p with place := step :: p.place })

/-- Combines two results; the problems of both count. -/
def map₂ (f : α → β → γ) : Checked α → Checked β → Checked γ
  | .ok a, .ok b => .ok (f a b)
  | .ok _, .error q => .error q
  | .error p, .ok _ => .error p
  | .error p, .error q => .error (p ++ q)

def items (read : Value → Checked α) : Nat → List Value → Checked (List α)
  | _, [] => .ok []
  | n, v :: rest => map₂ List.cons (within (Text.ofNat n) (read v)) (items read (n + 1) rest)

end Checked

namespace Value

def toNumber : Value → Checked Int
  | .number n => .ok n
  | _ => .problem "Input should be a valid integer".toList

def toText : Value → Checked Text
  | .text s => .ok s
  | _ => .problem "Input should be a valid string".toList

def toTree : Value → Checked Markdown.Page
  | .tree page => .ok page
  | _ => .problem "Input should be an instance of SyntaxTreeNode".toList

def toList {α : Type} (read : Value → Checked α) : Value → Checked (List α)
  | .list items => Checked.items read 0 items
  | _ => .problem "Input should be a valid list".toList

/-- The fields of a record; `name` is what the record should have been. -/
def toRecord (name : String) : Value → Checked (List (Text × Value))
  | .record fields => .ok fields
  | _ => .problem ("Input should be a valid dictionary or instance of ".toList ++ name.toList)

def required {α : Type} (fields : List (Text × Value)) (name : String)
    (read : Value → Checked α) : Checked α :=
  Checked.within name.toList <|
    match fields.lookup name.toList with
    | some v => read v
    | none => .problem "Field required".toList

def optional {α : Type} (fields : List (Text × Value)) (name : String) (default : α)
    (read : Value → Checked α) : Checked α :=
  Checked.within name.toList <|
    match fields.lookup name.toList with
    | some v => read v
    | none => .ok default

def orNull {α : Type} (read : Value → Checked α) : Value → Checked (Option α)
  | .null => .ok none
  | v => (read v).map some

def hasTag (tag : String) : Value → Checked Unit
  | v =>
    match v with
    | .text s =>
      if s = tag.toList then .ok ()
      else .problem ("Input should be '".toList ++ tag.toList ++ ['\''])
    | _ => .problem ("Input should be '".toList ++ tag.toList ++ ['\''])

end Value

end DocTree
