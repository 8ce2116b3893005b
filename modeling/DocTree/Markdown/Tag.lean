import DocTree.Text.Basic

/-!
# Raw HTML

What counts as a tag, a comment or another piece of raw HTML inside a paragraph, and which lines
begin and end an HTML block. The grammar of an opening tag is ambiguous where a blank may belong
to an unquoted attribute value, so the reader follows all readings at once; they agree on where
the tag ends.
-/
namespace DocTree.Markdown.Tag

def after? (pattern : Text) : Text → Option Text
  | [] => if pattern = [] then some [] else none
  | c :: rest =>
    if pattern.isPrefixOf (c :: rest) then some ((c :: rest).drop pattern.length)
    else after? pattern rest

def rest? (start s : Text) : Option Text :=
  if start.isPrefixOf s then some (s.drop start.length) else none

inductive State where
  | name
  | gap
  | attribute
  | afterAttribute
  | equals
  | unquoted
  | single
  | double
  | afterValue
  | slash
  deriving DecidableEq, Repr

def isNameChar (c : Char) : Bool :=
  c.isAlphanum || c == '-'

def startsAttribute (c : Char) : Bool :=
  c.isAlpha || c == '_' || c == ':'

def isAttributeChar (c : Char) : Bool :=
  c.isAlphanum || c == ':' || c == '.' || c == '_' || c == '-'

/-- What an unquoted value may hold: some blanks outside ASCII are among it. -/
def isUnquotedChar (c : Char) : Bool :=
  32 < c.toNat && !(['"', '\'', '=', '<', '>', '`'].contains c)

def State.next (c : Char) : State → List State
  | .name =>
    if isNameChar c then [.name] else if Text.isBlank c then [.gap]
    else if c = '/' then [.slash] else []
  | .gap =>
    if Text.isBlank c then [.gap] else if startsAttribute c then [.attribute]
    else if c = '/' then [.slash] else []
  | .attribute =>
    if isAttributeChar c then [.attribute] else if Text.isBlank c then [.afterAttribute]
    else if c = '=' then [.equals] else if c = '/' then [.slash] else []
  | .afterAttribute =>
    if Text.isBlank c then [.afterAttribute] else if startsAttribute c then [.attribute]
    else if c = '=' then [.equals] else if c = '/' then [.slash] else []
  | .equals =>
    if c = '"' then [.double] else if c = '\'' then [.single]
    else (if Text.isBlank c then [.equals] else []) ++
      if isUnquotedChar c then [.unquoted] else []
  | .unquoted =>
    (if isUnquotedChar c then [.unquoted] else []) ++
      if Text.isBlank c then [.gap] else if c = '/' then [.slash] else []
  | .single => if c = '\'' then [.afterValue] else [.single]
  | .double => if c = '"' then [.afterValue] else [.double]
  | .afterValue => if Text.isBlank c then [.gap] else if c = '/' then [.slash] else []
  | .slash => []

def State.isComplete : State → Bool
  | .equals | .single | .double => false
  | _ => true

/-- What follows an opening tag, from the states reached so far. -/
def openingFrom? (states : List State) : Text → Option Text
  | [] => none
  | c :: rest =>
    if c = '>' && states.any State.isComplete then some rest
    else match (states.flatMap (State.next c)).eraseDups with
      | [] => none
      | next => openingFrom? next rest

def opening? : Text → Option Text
  | '<' :: c :: rest => if c.isAlpha then openingFrom? [.name] rest else none
  | _ => none

def closing? : Text → Option Text
  | '<' :: '/' :: c :: rest =>
    if c.isAlpha then
      match (rest.dropWhile isNameChar).dropWhile Text.isBlank with
      | '>' :: rest => some rest
      | _ => none
    else none
  | _ => none

/-- What follows the end of a comment; `--` before another character than `>` is part of it. -/
def commentEnd? : Text → Option Text
  | '-' :: '-' :: '>' :: rest => some rest
  | '-' :: '-' :: _ :: rest => commentEnd? rest
  | ['-', '-'] => none
  | '-' :: _ :: rest => commentEnd? rest
  | ['-'] => none
  | _ :: rest => commentEnd? rest
  | [] => none

def comment? (s : Text) : Option Text :=
  (rest? "<!-->".toList s).or <| (rest? "<!--->".toList s).or <|
    (rest? "<!--".toList s).bind commentEnd?

def instruction? (s : Text) : Option Text :=
  (rest? "<?".toList s).bind (after? "?>".toList)

def declaration? : Text → Option Text
  | '<' :: '!' :: c :: rest => if c.isAlpha then after? ['>'] rest else none
  | _ => none

def cdata? (s : Text) : Option Text :=
  (rest? "<![CDATA[".toList s).bind (after? "]]>".toList)

def raw? (s : Text) : Option Text :=
  (opening? s).or <| (closing? s).or <| (comment? s).or <| (instruction? s).or <|
    (declaration? s).or <| cdata? s

/-- The ways in which an HTML block begins; each has its own end. -/
inductive HtmlKind where
  | verbatim
  | comment
  | instruction
  | declaration
  | cdata
  | element
  | tag
  deriving DecidableEq, Repr

def verbatimNames : List String :=
  ["script", "pre", "style", "textarea"]

def blockNames : List String :=
  ["address", "article", "aside", "base", "basefont", "blockquote", "body", "caption", "center",
    "col", "colgroup", "dd", "details", "dialog", "dir", "div", "dl", "dt", "fieldset",
    "figcaption", "figure", "footer", "form", "frame", "frameset", "h1", "h2", "h3", "h4", "h5",
    "h6", "head", "header", "hr", "html", "iframe", "legend", "li", "link", "main", "menu",
    "menuitem", "nav", "noframes", "ol", "optgroup", "option", "p", "param", "search", "section",
    "summary", "table", "tbody", "td", "tfoot", "th", "thead", "title", "tr", "track", "ul"]

/-- Letters that differ in case only, or are drawn alike in the names of elements. -/
def foldLetter (c : Char) : Char :=
  match c.toNat with
  | 0x17F => 's'
  | 0x212A => 'k'
  | 0x130 | 0x131 => 'i'
  | _ => c.toLower

def afterNames (names : List String) (s : Text) : List Text :=
  names.filterMap fun name =>
    if (s.take name.length).map foldLetter = name.toList then some (s.drop name.length) else none

/-- The end of a line, a blank or the end of the tag. -/
def endsName (slash : Bool) : Text → Bool
  | [] => true
  | '>' :: _ => true
  | '/' :: '>' :: _ => slash
  | c :: _ => Text.isBlank c

def startsElement (s : Text) : Bool :=
  (afterNames blockNames s).any (endsName true)

def isLoneTag (s : Text) : Bool :=
  match (opening? s).or (closing? s) with
  | some rest => rest.all Text.isBlank
  | none => false

def HtmlKind.of? (s : Text) : Option HtmlKind :=
  match s with
  | '<' :: rest =>
    if (afterNames verbatimNames rest).any (endsName false) then some .verbatim
    else if "!--".toList.isPrefixOf rest then some .comment
    else if rest.head? = some '?' then some .instruction
    else if (rest.head? = some '!') && (rest.drop 1).head?.any Char.isAlpha then
      some .declaration
    else if "![CDATA[".toList.isPrefixOf rest then some .cdata
    else if startsElement rest || (rest.head? = some '/' && startsElement (rest.drop 1)) then
      some .element
    else if isLoneTag s then some .tag
    else none
  | _ => none

def closesVerbatim : Text → Bool
  | [] => false
  | c :: rest =>
    (c = '<' && rest.head? = some '/' &&
      (afterNames verbatimNames (rest.drop 1)).any fun s => s.head? = some '>') ||
    closesVerbatim rest

def HtmlKind.endsWith : HtmlKind → Text → Bool
  | .verbatim, s => closesVerbatim s
  | .comment, s => (after? "-->".toList s).isSome
  | .instruction, s => (after? "?>".toList s).isSome
  | .declaration, s => s.contains '>'
  | .cdata, s => (after? "]]>".toList s).isSome
  | .element, s | .tag, s => s.isEmpty

/-- A lone tag is part of a paragraph that stands above it; the others end it. -/
def HtmlKind.interrupts : HtmlKind → Bool
  | .tag => false
  | _ => true

end DocTree.Markdown.Tag
