import DocTree.Markdown.EntityNames

/-!
# Character references

Characters written as `&name;`, `&#number;` or `&#xnumber;`, and the text that a link destination
stands for once its references and escapes are replaced.
-/
namespace DocTree.Markdown.Entity

def isNameable (n : Nat) : Bool :=
  !(0xD800 ≤ n && n ≤ 0xDFFF || 0xFDD0 ≤ n && n ≤ 0xFDEF || n % 0x10000 == 0xFFFF ||
    n % 0x10000 == 0xFFFE || n ≤ 8 || n == 0xB || 0xE ≤ n && n ≤ 0x1F || 0x7F ≤ n && n ≤ 0x9F ||
    0x10FFFF < n)

def readValue (s : Text) : Text :=
  (Text.splitOn '+' s).map fun digits =>
    Char.ofNat (Text.readDigits 16 (digits.filterMap Text.hexValue?))

/-- The value after a name in a list where names and values alternate. -/
def valueOf? (name : Text) : List Text → Option Text
  | key :: value :: rest => if key = name then some (readValue value) else valueOf? name rest
  | _ => none

def named? (name : Text) : Option Text :=
  name.head?.bind fun initial =>
    valueOf? name ((namesFrom initial).flatMap fun line => Text.splitOn ' ' line.toList)

/-- The number that follows `#`, at most so many digits of its base. -/
def number? (decimals hexes : Nat) : Text → Option Nat
  | x :: digits =>
    if x = 'x' || x = 'X' then
      if digits.isEmpty || hexes < digits.length then none
      else (digits.mapM Text.hexValue?).map (Text.readDigits 16)
    else if decimals < digits.length + 1 then none
    else if (x :: digits).all Char.isDigit then
      some (Text.readDigits 10 ((x :: digits).map fun d => d.toNat - 48))
    else none
  | [] => none

/-- The text between `&` and `;`, if it could be a reference, and what follows it. -/
def body? (s : Text) : Option (Text × Text) :=
  match s with
  | '&' :: rest =>
    let body := rest.takeWhile fun c => c.isAlphanum || c == '#'
    match rest.drop body.length with
    | ';' :: after => some (body, after)
    | _ => none
  | _ => none

def read? (s : Text) : Option (Text × Text) := do
  let (body, after) ← body? s
  match body with
  | '#' :: number =>
    let n ← number? 7 6 number
    return ([if isNameable n then Char.ofNat n else Char.ofNat 0xFFFD], after)
  | name =>
    let value ← named? name
    return (value, after)

/-- What a reference inside a link destination stands for; a number that may not be named stays as
it is written. -/
def resolve? (body : Text) : Option Text :=
  match body with
  | '#' :: number =>
    (number? 8 8 number).bind fun n => if isNameable n then some [Char.ofNat n] else none
  | name => named? name

/-- A destination without its escapes and references. The counter runs over what a reference at
an earlier place has taken. -/
def unescapeFrom : (taken : Nat) → Text → Text
  | _, [] => []
  | taken + 1, _ :: rest => unescapeFrom taken rest
  | 0, c :: rest =>
    if c = '\\' && rest.head?.any Text.isAsciiPunctuation then
      match rest with
      | d :: _ => d :: unescapeFrom 1 rest
      | [] => [c]
    else
      match body? (c :: rest) with
      | some (body, _) =>
        match resolve? body with
        | some value => value ++ unescapeFrom (body.length + 1) rest
        | none => c :: unescapeFrom 0 rest
      | none => c :: unescapeFrom 0 rest

def unescape (s : Text) : Text :=
  unescapeFrom 0 s

end DocTree.Markdown.Entity
