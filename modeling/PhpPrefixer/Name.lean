import PhpPrefixer.SymbolKind
import PhpPrefixer.Text.Case

/-!
# PHP names

A name is a text in which backslashes separate segments. All comparisons of names go through
`Name.key`, the form under which PHP itself looks a symbol up: everything but the short name of a
constant is lower-cased. A name is moved under a prefix by `Name.relocate`, and `Name.isUnder` tells
whether it already lives there.

The functions are defined for every text. A name with one leading backslash denotes the same symbol
as without it; further backslashes are kept as they are.
-/

namespace PhpPrefixer.Name

/-- The character between the segments of a name. -/
def separator : Char := '\\'

/-- A name without its leading separator, if it has one. -/
def bare : Text → Text
  | [] => []
  | c :: cs => if c = separator then cs else c :: cs

/-- The texts between the separators of a name. -/
def segments (name : Text) : List Text := Text.pieces separator name

/-- The namespace and the short name: what stands before and after the last separator. -/
def split (name : Text) : Text × Text :=
  let parts := segments (bare name)
  (Text.glue separator parts.dropLast, parts.getLastD [])

/-- The namespace part of a name, empty for the global namespace. -/
def namespaceOf (name : Text) : Text := (split name).1

/-- The part of a name after its namespace. -/
def shortOf (name : Text) : Text := (split name).2

/-- Whether a name has no namespace part. -/
def isGlobal (name : Text) : Bool := !(bare name).contains separator

/-- The form under which a symbol is looked up. -/
def key (kind : SymbolKind) (name : Text) : Text :=
  if kind.caseSensitive then
    let (space, short) := split (bare name)
    if space = [] then short else Text.lower space ++ separator :: short
  else Text.lower (bare name)

/-- A name without any separators around it. -/
def trimmed (name : Text) : Text := Text.trim (· = separator) name

/-- The parts joined to one name; separators around a part are dropped, and so are empty parts. -/
def join (parts : List Text) : Text :=
  Text.glue separator ((parts.map trimmed).filter (· ≠ []))

/-- The name moved under the prefix `root`. -/
def relocate (root name : Text) : Text := join [root, bare name]

/-- Whether a name is the prefix `root` or lives under it. -/
def isUnder (root name : Text) : Bool :=
  let lowered := Text.lower (bare name)
  let loweredRoot := Text.lower root
  lowered = loweredRoot || (loweredRoot ++ [separator]).isPrefixOf lowered

/-- Whether a character may start an identifier. -/
def isIdentifierStart (c : Char) : Bool :=
  c.isAlpha || c = '_' || (0x80 ≤ c.toNat && c.toNat ≤ 0xFFFF)

/-- Whether a character may continue an identifier. -/
def isIdentifierPart (c : Char) : Bool := isIdentifierStart c || c.isDigit

/-- Whether a text is one identifier. -/
def isIdentifier : Text → Bool
  | [] => false
  | c :: cs => isIdentifierStart c && cs.all isIdentifierPart

/-- Whether a text is a syntactically valid name, with or without a leading separator. A line break
at the very end is let through. -/
def isSymbolName (t : Text) : Bool :=
  Text.holdsOfLine (fun line => (segments (bare line)).all isIdentifier) t

/-- Words that stand for a class without naming one, and words for the built-in types. -/
def reservedClassNames : List Text :=
  ["self", "static", "parent", "array", "bool", "callable", "false", "float", "int", "iterable",
   "mixed", "never", "null", "object", "string", "true", "void"].map String.toList

/-- Words that are written like function calls but are not functions. -/
def callLikeConstructs : List Text :=
  ["__halt_compiler", "array", "die", "echo", "empty", "eval", "exit", "include", "include_once",
   "isset", "list", "print", "require", "require_once", "unset"].map String.toList

/-- Whether a name is reserved where a class is expected. -/
def isReservedClass (name : Text) : Bool := reservedClassNames.contains (Text.lower name)

/-- Whether a text is two underscores, letters and two underscores. -/
def isMagicWord (t : Text) : Bool :=
  match t with
  | '_' :: '_' :: rest =>
    let letters := rest.takeWhile Char.isAlpha
    letters ≠ [] && rest.dropWhile Char.isAlpha = ['_', '_']
  | _ => false

/-- Whether a name of this kind looks like a symbol but belongs to the language. -/
def isConstruct (kind : SymbolKind) (name : Text) : Bool :=
  match kind with
  | .function => callLikeConstructs.contains (Text.lower name)
  | .constant => Text.holdsOfLine isMagicWord name
  | _ => false

/-- A separator in front is taken away. -/
@[simp] theorem bare_separator_cons (name : Text) : bare (separator :: name) = name := by
  simp [bare]

/-- Splitting a name at its last separator loses nothing. -/
theorem glue_segments (name : Text) : Text.glue separator (segments name) = name :=
  Text.glue_pieces separator name

/-- Every name has a segment. -/
theorem segments_ne_nil (name : Text) : segments name ≠ [] := Text.pieces_ne_nil separator name

end PhpPrefixer.Name
