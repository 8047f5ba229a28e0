import PhpPrefixer.Text

/-!
# String literals

A literal without interpolation is read to its value, and a value is written in the style of a
literal. In single quotes only backslashes and single quotes may be escaped; in double quotes also
the dollar sign, and a literal with any other escape that means something is not read.
-/

namespace PhpPrefixer

/-- A literal that could be read. -/
structure Literal where
  /-- What it stands for. -/
  value : Text
  /-- The quote around it. -/
  quote : Char
  /-- The letter in front of it, if there is one. -/
  binaryMark : Text
  /-- Whether a doubled backslash occurs in it. -/
  doubled : Bool
  deriving DecidableEq, Repr

namespace Literal

/-- The types of the nodes a literal without interpolation is made of. -/
def contentTypes : List String := ["string_content", "string_value", "escape_sequence"]

/-- Whether a character may be escaped between quotes of a kind. -/
def isEscapable (quote c : Char) : Bool :=
  c = '\\' || c = quote || (quote ≠ '\'' && c = '$')

/-- Whether a backslash in double quotes gives a character another meaning. -/
def isInterpreted (c : Char) : Bool := "nrtvef01234567xu".toList.contains c

/-- The value of what stands between quotes of a kind. -/
def unescape (quote : Char) : Text → Option Text
  | [] => some []
  | [c] => some [c]
  | c :: d :: rest =>
    if c = '\\' && isEscapable quote d then (unescape quote rest).map (d :: ·)
    else if c = '\\' && quote = '"' && isInterpreted d then none
    else (unescape quote (d :: rest)).map (c :: ·)

/-- The letter in front of a literal and the rest. -/
def splitMark (text : Text) : Text × Text :=
  match text with
  | 'b' :: rest => (['b'], rest)
  | 'B' :: rest => (['B'], rest)
  | _ => ([], text)

/-- What stands between two equal quotes around a text. -/
def unquoted? (text : Text) : Option (Char × Text) :=
  match text with
  | [] => none
  | quote :: rest =>
    if (quote = '\'' || quote = '"') && rest.getLast? = some quote then some (quote, rest.dropLast)
    else none

/-- The literal written in a text. -/
def ofText? (text : Text) : Option Literal := do
  let (mark, rest) := splitMark text
  let (quote, body) ← unquoted? rest
  let value ← unescape quote body
  return ⟨value, quote, mark, (Text.cut? ['\\', '\\'] body).isSome⟩

/-- The literal of a node of some type with named children of some types. -/
def read? (type : String) (content : List String) (text : Text) : Option Literal :=
  if (type = "string" || type = "encapsed_string") && content.all contentTypes.contains then
    ofText? text
  else none

/-- Whether a character of a value is escaped in the style of a literal. -/
def escapes (l : Literal) (c : Char) : Bool :=
  if l.quote = '\'' then c = '\'' || (l.doubled && c = '\\') else c = '\\' || c = '"' || c = '$'

/-- A value written in the style of a literal. -/
def encode (l : Literal) (value : Text) : Text :=
  l.binaryMark ++ l.quote :: Text.escape l.escapes '\\' value ++ [l.quote]

/-- A value in single quotes, with every backslash doubled. -/
def singleQuoted (value : Text) : Text :=
  '\'' :: Text.escape (fun c => c = '\\' || c = '\'') '\\' value ++ ['\'']

end Literal

end PhpPrefixer
