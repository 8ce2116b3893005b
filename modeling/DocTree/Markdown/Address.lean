import DocTree.Markdown.Punycode
import DocTree.Text.Utf8

/-!
# Addresses

An address between angle brackets is shown with its percent escapes decoded and its host name
readable. To that end it is taken apart into scheme, user, host with its number, and the rest, and
put together again. An address whose scheme could run a program or read a file is refused.
-/
namespace DocTree.Markdown

/-- The parts of an address; what is absent is empty. The scheme keeps its colon. -/
structure Address where
  scheme : Text := []
  slashes : Bool := false
  user : Text := []
  host : Text := []
  number : Text := []
  tail : Text := []
  deriving DecidableEq, Repr

namespace Address

def isSchemeChar (c : Char) : Bool :=
  c.isAlphanum || c == '.' || c == '+' || c == '-'

def schemeOf (s : Text) : Text :=
  match s.takeWhile isSchemeChar, s.dropWhile isSchemeChar with
  | _ :: _, ':' :: _ => s.takeWhile isSchemeChar ++ [':']
  | _, _ => []

def hasHostAlways (scheme : Text) : Bool :=
  ["http:", "https:", "ftp:", "gopher:", "file:"].any fun s => s.toList == scheme

def endsHost (c : Char) : Bool :=
  ['%', '/', '?', ';', '#', '\'', '{', '}', '|', '\\', '^', '`', '<', '>', '"', ' ', '\r', '\n',
    '\t'].contains c

def isLabelChar (c : Char) : Bool :=
  c.isAlphanum || c == '+' || c == '_' || c == '-'

/-- A label of a host name: characters outside ASCII are allowed in it. -/
def isLabel (s : Text) : Bool :=
  s.length ≤ 63 && s.all fun c => isLabelChar c || 127 < c.toNat

/-- The labels of a host name up to the first that is none, and what has to follow the host. -/
def splitLabels : List Text → List Text × List Text
  | [] => ([], [])
  | part :: parts =>
    if isLabel part then
      let (labels, rest) := splitLabels parts
      (part :: labels, rest)
    else
      let good := (part.takeWhile isLabelChar).take 63
      ([good], part.drop good.length :: parts)

def numberOf (host : Text) : Text :=
  let digits := (host.reverse.takeWhile Char.isDigit).reverse
  if (host.take (host.length - digits.length)).getLast? = some ':' then ':' :: digits else []

/-- What a user name leaves: the last `@` before a slash, question mark or hash ends it. -/
def splitUser (s : Text) : Text × Text :=
  let reach := s.takeWhile fun c => !(c == '/' || c == '?' || c == '#')
  if reach.contains '@' then
    let kept := (reach.reverse.takeWhile (· != '@')).reverse
    let user := reach.take (reach.length - kept.length - 1)
    (user, s.drop (user.length + 1))
  else ([], s)

def withHost (a : Address) (s : Text) : Address :=
  let (user, s) := splitUser s
  let reach := s.takeWhile fun c => !endsHost c
  let whole := if reach.getLast? = some ':' then reach.dropLast else reach
  let rest := s.drop whole.length
  let number := numberOf whole
  let host := whole.take (whole.length - number.length)
  if host.head? = some '[' && host.getLast? = some ']' then
    let host := if 255 < host.length then [] else (host.drop 1).dropLast
    { a with user, host, number := number.drop 1, tail := rest }
  else
    let (labels, beyond) := splitLabels (Text.splitOn '.' host)
    let host := List.intercalate ['.'] labels
    { a with
      user
      host := if 255 < host.length then [] else host
      number := number.drop 1
      tail := List.intercalate ['.'] beyond ++ rest }

def ofText (s : Text) : Address :=
  let s := Text.trim Text.isBlank s
  let scheme := schemeOf s
  let rest := s.drop scheme.length
  let hostless := scheme = "javascript:".toList
  let slashes := "//".toList.isPrefixOf rest
  if hostless then { scheme, tail := rest }
  else if slashes then withHost { scheme, slashes := true } (rest.drop 2)
  else if scheme ≠ [] && !hasHostAlways scheme then withHost { scheme } rest
  else { scheme, tail := rest }

def toText (a : Address) : Text :=
  a.scheme ++ (if a.slashes then "//".toList else []) ++
    (if a.user = [] then [] else a.user ++ ['@']) ++
    (if a.host.contains ':' then '[' :: a.host ++ [']'] else a.host) ++
    (if a.number = [] then [] else ':' :: a.number) ++ a.tail

/-- A host name with its labels in readable form. Three other full stops also part labels. -/
def readableHost (host : Text) : Text :=
  let dots := host.map fun c => if [0x3002, 0xFF0E, 0xFF61].contains c.toNat then '.' else c
  let labels := (Text.splitOn '.' dots).mapM fun label =>
    if "xn--".toList.isPrefixOf label then Punycode.decode? (label.drop 4) else some label
  match labels with
  | some labels => List.intercalate ['.'] labels
  | none => host

def escapesOf : Text → List UInt8
  | '%' :: a :: b :: rest =>
    match Text.hexValue? a, Text.hexValue? b with
    | some x, some y => (x * 16 + y).toUInt8 :: escapesOf rest
    | _, _ => []
  | _ => []

/-- Characters that stay escaped, because they would change the meaning of the address. -/
def staysEscaped (c : Char) : Bool :=
  [';', '/', '?', ':', '@', '&', '=', '+', '$', ',', '#', '%'].contains c

def sequenceLength (b : UInt8) : Nat :=
  if b < 0xC0 then 1 else if b < 0xE0 then 2 else if b < 0xF0 then 3 else if b < 0xF8 then 4 else 1

/-- Shows the bytes of a run of escapes. Bytes that form no character are replaced one by one;
`taken` counts the bytes that an earlier character covers. -/
def decodeBytes : (taken : Nat) → List UInt8 → Text
  | _, [] => []
  | taken + 1, _ :: rest => decodeBytes taken rest
  | 0, b :: rest =>
    if b < 0x80 then
      let c := Char.ofNat b.toNat
      (if staysEscaped c then '%' :: (Text.hex 2 c.toNat).map Char.toUpper else [c]) ++
        decodeBytes 0 rest
    else
      let more := sequenceLength b - 1
      let tail := rest.take more
      if 0 < more && tail.length = more && tail.all fun t => 0x80 ≤ t && t < 0xC0 then
        match Text.Utf8.decode (b :: tail) with
        | .ok s => s ++ decodeBytes more rest
        | .error _ => List.replicate (more + 1) (Char.ofNat 0xFFFD) ++ decodeBytes more rest
      else Char.ofNat 0xFFFD :: decodeBytes 0 rest

/-- A text with its percent escapes decoded; `taken` counts the characters of a run of escapes
that is already shown. -/
def decodeFrom : (taken : Nat) → Text → Text
  | _, [] => []
  | taken + 1, _ :: rest => decodeFrom taken rest
  | 0, c :: rest =>
    match escapesOf (c :: rest) with
    | [] => c :: decodeFrom 0 rest
    | bytes => decodeBytes 0 bytes ++ decodeFrom (bytes.length * 3 - 1) rest

def shown (s : Text) : Text :=
  let a := ofText s
  let readable := a.scheme = [] || ["http:", "https:", "mailto:"].any fun t => t.toList == a.scheme
  let a := if readable && a.host ≠ [] then { a with host := readableHost a.host } else a
  decodeFrom 0 a.toText

/-- Addresses that run a program or read local data are refused, pictures apart. -/
def isAllowed (s : Text) : Bool :=
  let s := (ofText s).toText.map Char.toLower
  let startsWith (t : String) := t.toList.isPrefixOf s
  !(["vbscript:", "javascript:", "file:", "data:"].any startsWith) ||
    ["data:image/gif;", "data:image/png;", "data:image/jpeg;", "data:image/webp;"].any startsWith

end Address

end DocTree.Markdown
