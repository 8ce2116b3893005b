import DocTree.Text.Basic

/-!
# Punycode

Reading host name labels that write characters outside ASCII by letters and digits: the plain
characters of a label come first, and each number after the last hyphen places one more character
among them.
-/
namespace DocTree.Markdown.Punycode

def digit? (c : Char) : Option Nat :=
  if c.isLower then some (c.toNat - 97)
  else if c.isUpper then some (c.toNat - 65)
  else if c.isDigit then some (c.toNat - 22)
  else none

/-- The digit value from which on a number goes on, at the `k`-th digit. -/
def threshold (bias k : Nat) : Nat :=
  let t := 36 * (k + 1) - bias
  if t < 1 then 1 else if 26 < t then 26 else t

/-- Reads a number of variable length: its value, and what follows. -/
def number? (bias : Nat) : (k weight : Nat) → Text → Option (Nat × Text)
  | _, _, [] => none
  | k, weight, c :: rest => do
    let d ← digit? c
    let t := threshold bias k
    if d < t then return (d * weight, rest)
    let (n, rest) ← number? bias (k + 1) (weight * (36 - t)) rest
    return (d * weight + n, rest)

/-- Divides until what is left is small; `fuel` bounds the number of divisions. -/
def divisions : (fuel delta : Nat) → Nat
  | 0, delta => 36 * delta / (delta + 38)
  | fuel + 1, delta =>
    if 455 < delta then 36 + divisions fuel (delta / 35) else 36 * delta / (delta + 38)

def adapt (first : Bool) (delta count : Nat) : Nat :=
  let delta := if first then delta / 700 else delta / 2
  divisions delta (delta + delta / count)

/-- Places the characters that the numbers describe, from the one with the least code point
upward; `fuel` bounds their number. `index` is the place after the character placed last. -/
def place? : (fuel bias code index : Nat) → Text → Text → Option Text
  | _, _, _, _, placed, [] => some placed
  | 0, _, _, _, _, _ => none
  | fuel + 1, bias, code, index, placed, digits => do
    let (delta, rest) ← number? bias 0 1 digits
    let count := placed.length + 1
    let sum := index + delta
    let code := code + sum / count
    let index := sum % count
    if !code.isValidChar then none
    place? fuel (adapt (placed.all fun c => c.toNat < 128) delta count) code (index + 1)
      (placed.take index ++ Char.ofNat code :: placed.drop index) rest

def decode? (s : Text) : Option Text :=
  if s.all (fun c => c.toNat < 128) then
    let digits := (s.reverse.takeWhile (· != '-')).reverse
    let plain := (s.take (s.length - digits.length)).dropLast
    place? digits.length 72 128 0 (plain.map Char.toLower) digits
  else none

end DocTree.Markdown.Punycode
