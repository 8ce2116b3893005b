import DocTree.Text.Basic

/-!
# Sections

The headings of a document nested by level. A heading adopts the headings after it for as long as
they are deeper than itself, so a shallow heading closes every open level at once. Read in order
the forest gives the headings back.
-/
namespace DocTree

structure Heading where
  level : Int
  title : Text
  deriving DecidableEq, Repr

inductive Section where
  | mk (level : Int) (title anchor filename : Text) (children : List Section)
  deriving Repr

namespace Section

def level : Section → Int
  | mk level .. => level

def title : Section → Text
  | mk _ title .. => title

def anchor : Section → Text
  | mk _ _ anchor .. => anchor

def filename : Section → Text
  | mk _ _ _ filename _ => filename

def children : Section → List Section
  | mk _ _ _ _ children => children

end Section

mutual

def Section.headings : Section → List Heading
  | .mk level title _ _ children => ⟨level, title⟩ :: Section.headingsOfAll children

def Section.headingsOfAll : List Section → List Heading
  | [] => []
  | s :: rest => s.headings ++ Section.headingsOfAll rest

end

@[simp] theorem Section.headingsOfAll_append (forest rest : List Section) :
    headingsOfAll (forest ++ rest) = headingsOfAll forest ++ headingsOfAll rest := by
  induction forest with
  | nil => rfl
  | cons s forest ih => simp [headingsOfAll, ih]

namespace Heading

/-- Writes the letters and digits of a title, small, with one hyphen between runs of them.
`started` tells whether something is written, `gap` whether a run of other characters is open. -/
def slugFrom (started gap : Bool) : Text → Text
  | [] => []
  | c :: rest =>
    if c.isAlphanum then
      if started && gap then '-' :: c.toLower :: slugFrom true false rest
      else c.toLower :: slugFrom true false rest
    else slugFrom started true rest

/-- The link target of a heading within its document. Equal titles have equal targets. -/
def anchor (title : Text) : Text :=
  '#' :: slugFrom false false title

/-- Puts a heading in front of a forest: it adopts the first trees while they are deeper. -/
def adopt (filename : Text) (h : Heading) (forest : List Section) : List Section :=
  let deeper (s : Section) : Bool := h.level < s.level
  .mk h.level h.title (anchor h.title) filename (forest.takeWhile deeper) ::
    forest.dropWhile deeper

@[simp] theorem headingsOfAll_adopt (filename : Text) (h : Heading) (forest : List Section) :
    Section.headingsOfAll (adopt filename h forest) = h :: Section.headingsOfAll forest := by
  simp [adopt, Section.headingsOfAll, Section.headings, ← Section.headingsOfAll_append]

/-- The forest of a document's headings, whatever their levels. -/
def nest (filename : Text) (headings : List Heading) : List Section :=
  headings.foldr (adopt filename) []

/-- No heading is lost, repeated or moved when headings are nested. -/
@[simp] theorem headingsOfAll_nest (filename : Text) (headings : List Heading) :
    Section.headingsOfAll (nest filename headings) = headings := by
  induction headings with
  | nil => rfl
  | cons h headings ih =>
    rw [nest, List.foldr_cons, headingsOfAll_adopt]
    exact congrArg (h :: ·) ih

end Heading

inductive LevelFault where
  | low (level : Int)
  | high (level : Int)
  deriving DecidableEq, Repr

def LevelFault.message : LevelFault → String
  | .low _ => "Input should be greater than or equal to 1"
  | .high _ => "Input should be less than or equal to 6"

def LevelFault.of? (level : Int) : Option LevelFault :=
  if level < 1 then some (.low level) else if 6 < level then some (.high level) else none

mutual

/-- The first level outside one to six, children before their parent. -/
def Section.fault? : Section → Option LevelFault
  | .mk level _ _ _ children => (Section.faultIn? children).or (LevelFault.of? level)

def Section.faultIn? : List Section → Option LevelFault
  | [] => none
  | s :: rest => s.fault?.or (Section.faultIn? rest)

end

/-- The forest of a document's headings, refused if a level lies outside one to six. -/
def Heading.sections (filename : Text) (headings : List Heading) :
    Except LevelFault (List Section) :=
  let forest := nest filename headings
  match Section.faultIn? forest with
  | some fault => .error fault
  | none => .ok forest

mutual

/-- A section and those beneath it in order, without those deeper than a limit and without what
lies beneath them. -/
def Section.flatten (limit : Int) : Section → List Section
  | .mk level title anchor filename children =>
    if limit < level then []
    else .mk level title anchor filename children :: Section.flattenAll limit children

def Section.flattenAll (limit : Int) : List Section → List Section
  | [] => []
  | s :: rest => s.flatten limit ++ Section.flattenAll limit rest

end

end DocTree
