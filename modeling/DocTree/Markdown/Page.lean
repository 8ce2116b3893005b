import DocTree.Markdown.Container
import DocTree.Markdown.Content

/-!
# Pages

A Markdown text that has been read: its blocks in document order, with the content of paragraphs
and headings read as well. What a page is asked for are its headings, its HTML blocks, its plain
text and the line on which something begins.
-/
namespace DocTree.Markdown

abbrev Page := List (Block (List Inline))

namespace Page

def labels {α : Type} (blocks : List (Block α)) : List Text :=
  blocks.filterMap fun b =>
    match b.kind with
    | .definition label => some label
    | _ => none

/-- Reads a Markdown text. A definition serves the whole document, wherever it stands. -/
def ofText (s : Text) : Page :=
  let blocks := Markdown.blocks s
  blocks.map (Block.map (Content.read (labels blocks)))

def content? (b : Block (List Inline)) : Option (List Inline) :=
  match b.kind with
  | .paragraph content | .heading _ content => some content
  | _ => none

def text (p : Page) : Text :=
  plainText ((p.filterMap content?).flatMap Inline.leaves)

/-- A heading of a page: the index of its first line, its level and its plain text. -/
structure Title where
  index : Nat
  level : Nat
  text : Text
  deriving DecidableEq, Repr

def titles (p : Page) : List Title :=
  p.filterMap fun b =>
    match b.kind with
    | .heading level content => some ⟨b.index, level, plainText (Inline.leaves content)⟩
    | _ => none

/-- A piece of raw HTML of a page: the index of its first line, and how it is written. -/
structure Raw where
  index : Nat
  literal : Text
  deriving DecidableEq, Repr

def raws (p : Page) : List Raw :=
  p.filterMap fun b =>
    match b.kind with
    | .html literal => some ⟨b.index, literal⟩
    | _ => none

/-- The name of a block's kind; a definition leaves nothing on the page. -/
def kindName? : BlockKind (List Inline) → Option String
  | .paragraph _ => some "paragraph"
  | .heading _ _ => some "heading"
  | .code => some "code_block"
  | .fence => some "fence"
  | .rule => some "hr"
  | .html _ => some "html_block"
  | .quote => some "blockquote"
  | .bulletList => some "bullet_list"
  | .orderedList => some "ordered_list"
  | .item => some "list_item"
  | .definition _ => none

/-- The name of a piece's kind; what opens names the whole. -/
def pieceName? : Inline → Option String
  | .text _ => some "text"
  | .escaped _ => some "text_special"
  | .code => some "code_inline"
  | .html => some "html_inline"
  | .softBreak => some "softbreak"
  | .hardBreak => some "hardbreak"
  | .opens .emphasis => some "em"
  | .opens .strong => some "strong"
  | .opens .link => some "link"
  | .opens .image => some "image"
  | .closes _ => none

/-- A part of a page that begins on no line of its own. -/
structure NoPosition where
  kind : Text
  deriving DecidableEq, Repr

def NoPosition.message (e : NoPosition) : Text :=
  e.kind ++ " node carries no source position".toList

/-- The line on which the first part of a kind begins, if the page has one. The page as a whole and
the pieces of inline content have no line. -/
def firstLine (kind : Text) (p : Page) : Except NoPosition (Option Nat) :=
  let isBlock (b : Block (List Inline)) :=
    (kindName? b.kind).any (·.toList == kind) ||
      (kind == "inline".toList && (content? b).isSome)
  let isPiece (piece : Inline) := (pieceName? piece).any (·.toList == kind)
  if kind == "root".toList || (p.filterMap content?).any (·.any isPiece) then .error ⟨kind⟩
  else .ok ((p.find? isBlock).map (·.line))

end Page

end DocTree.Markdown
