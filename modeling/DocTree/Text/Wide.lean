import DocTree.Text.Basic

/-!
# Wide texts

What is handed over as text may hold surrogates, halves of a pair in another encoding that are no
characters by themselves. A wide text has room for them; the text of a file never holds any.
-/
namespace DocTree

/-- A character, or the surrogate that stands so far behind U+D800. -/
inductive CodePoint where
  | char (c : Char)
  | surrogate (n : Fin 2048)
  deriving DecidableEq, Repr

abbrev WideText := List CodePoint

namespace CodePoint

def isSurrogate : CodePoint → Bool
  | char _ => false
  | surrogate _ => true

end CodePoint

def Text.wide (s : Text) : WideText :=
  s.map .char

end DocTree
