import DocTree.Text.Printable

/-!
# Quoted text

How a text is shown inside a message: between single quotes, or between double quotes when it
holds a single quote and no double one. The backslash, the quote in use, line breaks, tabs and
characters that are not printable are written as escapes.
-/
namespace DocTree.Text

def escapeChar (quote c : Char) : Text :=
  if c = '\\' || c = quote then ['\\', c]
  else if c = '\n' then ['\\', 'n']
  else if c = '\r' then ['\\', 'r']
  else if c = '\t' then ['\\', 't']
  else if isPrintable c then [c]
  else if c.toNat < 0x100 then '\\' :: 'x' :: hex 2 c.toNat
  else if c.toNat < 0x10000 then '\\' :: 'u' :: hex 4 c.toNat
  else '\\' :: 'U' :: hex 8 c.toNat

/-- Single quotes, unless only double ones need no escape. -/
def quoteFor (s : Text) : Char :=
  if s.contains '\'' && !s.contains '"' then '"' else '\''

def quoted (s : Text) : Text :=
  quoteFor s :: s.flatMap (escapeChar (quoteFor s)) ++ [quoteFor s]

end DocTree.Text
