import DocTree.Text.Basic

/-!
# Inline content

The content of a paragraph or heading as a sequence of pieces in reading order. Emphasis, links
and images are pairs of pieces that open and close. The plain text of a sequence is what its text
pieces hold, each without the blanks around it, with one space between two of them.
-/
namespace DocTree.Markdown

inductive Enclosure where
  | emphasis
  | strong
  | link
  | image
  deriving DecidableEq, Repr

inductive Inline where
  | text (s : Text)
  | escaped (s : Text)
  | code
  | html
  | softBreak
  | hardBreak
  | opens (what : Enclosure)
  | closes (what : Enclosure)
  deriving DecidableEq, Repr

namespace Inline

def imagesAfter (images : Nat) : Inline → Nat
  | .opens .image => images + 1
  | .closes .image => images - 1
  | _ => images

/-- Escaped characters are text, except in the description of an image. -/
def asText (images : Nat) : Inline → Inline
  | .escaped s => if images = 0 then .text s else .escaped s
  | piece => piece

/-- Puts a piece in front; two texts side by side become one. -/
def cons : Inline → List Inline → List Inline
  | .text s, .text t :: rest => .text (s ++ t) :: rest
  | piece, rest => piece :: rest

def joined (images : Nat) : List Inline → List Inline
  | [] => []
  | piece :: rest => cons (piece.asText images) (joined (piece.imagesAfter images) rest)

/-- The text pieces without the blanks around them, empty ones left out. -/
def leaves (pieces : List Inline) : List Text :=
  pieces.filterMap fun piece =>
    match piece with
    | .text s =>
      match Text.trim Text.isBlank s with
      | [] => none
      | t => some t
    | _ => none

end Inline

def plainText (leaves : List Text) : Text :=
  List.intercalate [' '] leaves

end DocTree.Markdown
