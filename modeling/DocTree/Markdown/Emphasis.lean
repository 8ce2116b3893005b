import DocTree.Markdown.Inline
import DocTree.Text.Punctuation

/-!
# Emphasis

Runs of `*` and `_` open and close emphasis depending on what stands beside them. Each character
of a closing run is matched with the nearest earlier one that opens. Two pairs of one mark with
nothing between them make strong emphasis; a mark without partner is text.
-/
namespace DocTree.Markdown

structure Run where
  mark : Char
  length : Nat
  opens : Bool
  closes : Bool
  deriving DecidableEq, Repr

/-- A run between two characters. Underscores inside a word neither open nor close. -/
def Run.between (before : Char) (mark : Char) (length : Nat) (after : Char) : Run :=
  let blankBefore := Text.isSpacing before
  let blankAfter := Text.isSpacing after
  let markBefore := Text.isPunctuation before
  let markAfter := Text.isPunctuation after
  let left := !(blankAfter || (markAfter && !(blankBefore || markBefore)))
  let right := !(blankBefore || (markBefore && !(blankAfter || markAfter)))
  { mark, length
    opens := left && (mark == '*' || !right || markBefore)
    closes := right && (mark == '*' || !left || markAfter) }

/-- Whether a mark of an earlier run and one of a later run make a pair. A run that both opens and
closes pairs with another only if their lengths do not add up to a multiple of three, or both are
one. -/
def Run.pairs (opener closer : Run) : Bool :=
  opener.mark == closer.mark &&
    !((opener.closes || closer.opens) && (opener.length + closer.length) % 3 == 0 &&
      (opener.length % 3 != 0 || closer.length % 3 != 0))

inductive Part where
  | pieces (content : List Inline)
  | run (r : Run)
  deriving DecidableEq, Repr

namespace Emphasis

/-- Settled content: pieces, or emphasis by one mark whose strength is still open. -/
inductive Strand where
  | pieces (content : List Inline)
  | emphasis (mark : Char) (content : List Inline)
  deriving DecidableEq, Repr

def Strand.toPieces : Strand → List Inline
  | .pieces content => content
  | .emphasis _ content => .opens .emphasis :: content ++ [.closes .emphasis]

/-- A mark that may open emphasis, the place of its run among the runs, and what follows it. -/
structure Opener where
  run : Run
  place : Nat
  after : List Strand
  deriving DecidableEq, Repr

def Opener.asText (o : Opener) : List Strand :=
  .pieces [.text [o.run.mark]] :: o.after

/-- Content read so far: what stands before all openers, and the openers from the last to the
first. -/
structure Pending where
  before : List Strand
  openers : List Opener
  deriving DecidableEq, Repr

def Pending.push (p : Pending) (content : List Strand) : Pending :=
  match p.openers with
  | [] => { p with before := p.before ++ content }
  | o :: rest => { p with openers := { o with after := o.after ++ content } :: rest }

/-- Emphasis around some content. Where the content is emphasis by the same mark and nothing else,
the two become strong emphasis. -/
def enclose (mark : Char) (content : List Strand) : List Strand :=
  match content with
  | [.emphasis inner pieces] =>
    if inner = mark then
      [.pieces (.text [] :: .opens .strong :: pieces ++ [.closes .strong, .text []])]
    else [.emphasis mark (.opens .emphasis :: pieces ++ [.closes .emphasis])]
  | _ => [.emphasis mark (content.flatMap Strand.toPieces)]

/-- Looks for the nearest opener that pairs with a mark. `inner` is the content after the openers
already passed over, which becomes text. -/
def close? (closer : Run) (place : Nat) (inner : List Strand) :
    List Opener → Option (List Strand × List Opener)
  | [] => none
  | o :: rest =>
    if o.place ≠ place && o.run.pairs closer then
      some (enclose closer.mark (o.after ++ inner), rest)
    else close? closer place (o.asText ++ inner) rest

def mark (r : Run) (place : Nat) (p : Pending) : Pending :=
  match if r.closes then close? r place [] p.openers else none with
  | some (content, openers) => Pending.push { p with openers } content
  | none =>
    if r.opens then { p with openers := ⟨r, place, []⟩ :: p.openers }
    else p.push [.pieces [.text [r.mark]]]

def marks (r : Run) (place : Nat) : Nat → Pending → Pending
  | 0, p => p
  | n + 1, p => marks r place n (mark r place p)

def settleFrom (place : Nat) (p : Pending) : List Part → Pending
  | [] => p
  | .pieces content :: rest => settleFrom place (p.push [.pieces content]) rest
  | .run r :: rest => settleFrom (place + 1) (marks r place r.length p) rest

def settle (parts : List Part) : List Inline :=
  let p := settleFrom 0 ⟨[], []⟩ parts
  (p.before ++ p.openers.reverse.flatMap Opener.asText).flatMap Strand.toPieces

end Emphasis

end DocTree.Markdown
