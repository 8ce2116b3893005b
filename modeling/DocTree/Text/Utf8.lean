import DocTree.Text.Wide

/-!
# UTF-8

The encoding of a text as bytes, which refuses surrogates, and the strict decoding of bytes, which
refuses what no text encodes to; both tell where and why. A fault in bytes covers the longest
beginning of a well-formed sequence, or the one byte that begins none; one in a wide text covers
the surrogates that follow each other.
-/
namespace DocTree.Text.Utf8

inductive Reason where
  | startByte
  | continuationByte
  | endOfData
  deriving DecidableEq, Repr

/-- A refused sequence: its first byte, where it begins, and how many bytes it has. -/
structure Fault where
  byte : UInt8
  position : Nat
  length : Nat
  reason : Reason
  deriving DecidableEq, Repr

def encodeChar (c : Char) : List UInt8 :=
  let n := c.toNat
  if n < 0x80 then [n.toUInt8]
  else if n < 0x800 then [(0xC0 + n / 64).toUInt8, (0x80 + n % 64).toUInt8]
  else if n < 0x10000 then
    [(0xE0 + n / 4096).toUInt8, (0x80 + n / 64 % 64).toUInt8, (0x80 + n % 64).toUInt8]
  else
    [(0xF0 + n / 262144).toUInt8, (0x80 + n / 4096 % 64).toUInt8, (0x80 + n / 64 % 64).toUInt8,
      (0x80 + n % 64).toUInt8]

def encode (s : Text) : List UInt8 :=
  s.flatMap encodeChar

/-- Surrogates that have no encoding: the first one, where it stands, and how many there are. -/
structure WideFault where
  first : Fin 2048
  position : Nat
  length : Nat
  deriving DecidableEq, Repr

def encodeFrom : Nat → WideText → Except WideFault (List UInt8)
  | _, [] => .ok []
  | position, .char c :: rest => (encodeFrom (position + 1) rest).map (encodeChar c ++ ·)
  | position, .surrogate n :: rest =>
    .error ⟨n, position, (rest.takeWhile CodePoint.isSurrogate).length + 1⟩

def encodeWide (s : WideText) : Except WideFault (List UInt8) :=
  encodeFrom 0 s

/-- The range that the second byte of a sequence must lie in, given the first: it keeps out
overlong forms, surrogates and what lies above the last code point. -/
def secondRange (first : Nat) : Nat × Nat :=
  if first = 0xE0 then (0xA0, 0xBF)
  else if first = 0xED then (0x80, 0x9F)
  else if first = 0xF0 then (0x90, 0xBF)
  else if first = 0xF4 then (0x80, 0x8F)
  else (0x80, 0xBF)

/-- How many bytes follow a first byte, and the bits of the code point in it. -/
def leader? (first : Nat) : Option (Nat × Nat) :=
  if first < 0x80 then some (0, first)
  else if 0xC2 ≤ first && first < 0xE0 then some (1, first - 0xC0)
  else if 0xE0 ≤ first && first < 0xF0 then some (2, first - 0xE0)
  else if 0xF0 ≤ first && first < 0xF5 then some (3, first - 0xF0)
  else none

/-- Where the decoder stands inside a sequence: its first byte and position, the bytes read of
it, the bytes still due, the range of the next one and the bits so far. -/
structure Sequence where
  first : UInt8
  position : Nat
  read : Nat
  due : Nat
  range : Nat × Nat
  bits : Nat

def Sequence.fault (q : Sequence) (reason : Reason) : Fault :=
  ⟨q.first, q.position, q.read, reason⟩

/-- Decodes bytes that begin at a position, inside a sequence if one is open. -/
def decodeFrom : Nat → Option Sequence → List UInt8 → Except Fault Text
  | _, none, [] => .ok []
  | _, some q, [] => .error (q.fault .endOfData)
  | position, none, b :: rest =>
    match leader? b.toNat with
    | none => .error ⟨b, position, 1, .startByte⟩
    | some (0, bits) => (decodeFrom (position + 1) none rest).map (Char.ofNat bits :: ·)
    | some (due, bits) =>
      decodeFrom (position + 1) (some ⟨b, position, 1, due, secondRange b.toNat, bits⟩) rest
  | position, some q, b :: rest =>
    if q.range.1 ≤ b.toNat && b.toNat ≤ q.range.2 then
      let bits := q.bits * 64 + (b.toNat - 0x80)
      if q.due ≤ 1 then (decodeFrom (position + 1) none rest).map (Char.ofNat bits :: ·)
      else
        decodeFrom (position + 1)
          (some ⟨q.first, q.position, q.read + 1, q.due - 1, (0x80, 0xBF), bits⟩) rest
    else .error (q.fault .continuationByte)

def decode (bytes : List UInt8) : Except Fault Text :=
  decodeFrom 0 none bytes

def Reason.message : Reason → String
  | .startByte => "invalid start byte"
  | .continuationByte => "invalid continuation byte"
  | .endOfData => "unexpected end of data"

/-- One byte is shown, several are only counted. -/
def Fault.message (f : Fault) : Text :=
  "'utf-8' codec can't decode ".toList ++
    (if f.length = 1 then
      "byte 0x".toList ++ hex 2 f.byte.toNat ++ " in position ".toList ++ ofNat f.position
    else
      "bytes in position ".toList ++ ofNat f.position ++
        '-' :: ofNat (f.position + f.length - 1)) ++
    ": ".toList ++ f.reason.message.toList

def WideFault.message (f : WideFault) : Text :=
  "'utf-8' codec can't encode ".toList ++
    (if f.length = 1 then
      "character '\\u".toList ++ hex 4 (0xD800 + f.first) ++ "' in position ".toList ++
        ofNat f.position
    else
      "characters in position ".toList ++ ofNat f.position ++
        '-' :: ofNat (f.position + f.length - 1)) ++
    ": surrogates not allowed".toList

end DocTree.Text.Utf8
