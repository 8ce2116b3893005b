/-!
# Texts

A text is a list of characters, so that functions on it are recursions on data. This module holds
the type, the classes of blank characters and the operations that every other module uses.
-/
namespace DocTree

abbrev Text := List Char

namespace Text

def inRanges (ranges : List (Nat × Nat)) (c : Char) : Bool :=
  ranges.any fun (first, last) => first ≤ c.toNat && c.toNat ≤ last

/-- The blanks that separate words in flowing text: the ASCII ones and the space separators. -/
def isSpacing (c : Char) : Bool :=
  inRanges [(0x9, 0xD), (0x20, 0x20), (0xA0, 0xA0), (0x1680, 0x1680), (0x2000, 0x200A),
    (0x202F, 0x202F), (0x205F, 0x205F), (0x3000, 0x3000)] c

/-- Spacing and the two separators of lines and paragraphs. -/
def isMargin (c : Char) : Bool :=
  isSpacing c || inRanges [(0x2028, 0x2029)] c

/-- The Unicode property `White_Space`. -/
def isWhite (c : Char) : Bool :=
  isMargin c || inRanges [(0x85, 0x85)] c

/-- White space and the four information separators. -/
def isBlank (c : Char) : Bool :=
  isWhite c || inRanges [(0x1C, 0x1F)] c

def isGap (c : Char) : Bool :=
  c == ' ' || c == '\t'

def isAsciiPunctuation (c : Char) : Bool :=
  33 ≤ c.toNat && c.toNat < 127 && !c.isAlphanum

def trim (p : Char → Bool) (s : Text) : Text :=
  ((s.dropWhile p).reverse.dropWhile p).reverse

def ofNat (n : Nat) : Text :=
  Nat.toDigits 10 n

def ofInt (n : Int) : Text :=
  if n < 0 then '-' :: ofNat n.natAbs else ofNat n.natAbs

def hexDigit (n : Nat) : Char :=
  Nat.digitChar (n % 16)

/-- The last digits of a number in base sixteen. -/
def hex : (width : Nat) → (n : Nat) → Text
  | 0, _ => []
  | width + 1, n => hex width (n / 16) ++ [hexDigit n]

def hexValue? (c : Char) : Option Nat :=
  if c.isDigit then some (c.toNat - 48)
  else if 'a' ≤ c && c ≤ 'f' then some (c.toNat - 87)
  else if 'A' ≤ c && c ≤ 'F' then some (c.toNat - 55)
  else none

/-- The number that digits in some base write, the most significant first. -/
def readDigits (base : Nat) (digits : List Nat) : Nat :=
  digits.foldl (fun n d => n * base + d) 0

/-- The parts of a text between the separators: always one more than there are separators. -/
def splitOn (separator : Char) : Text → List Text
  | [] => [[]]
  | c :: rest =>
    if c = separator then [] :: splitOn separator rest
    else match splitOn separator rest with
      | part :: parts => (c :: part) :: parts
      | [] => [[c]]

/-- Code point by code point, the shorter text first where one begins the other. -/
def le : Text → Text → Bool
  | [], _ => true
  | _ :: _, [] => false
  | a :: s, b :: t => if a = b then le s t else a.toNat < b.toNat

end Text

end DocTree
