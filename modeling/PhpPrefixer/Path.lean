import PhpPrefixer.Text.Case

/-!
# Paths

A path is a text with slashes; no file is ever opened. Only its last component matters here, and the
extension of that.
-/

namespace PhpPrefixer.Path

/-- The components of a path; empty ones and single dots do not count. -/
def components (path : Text) : List Text :=
  (Text.pieces '/' path).filter fun c => c ≠ [] && c ≠ ['.']

/-- The last component of a path. -/
def name (path : Text) : Text := (components path).getLastD []

/-- What comes after the last dot of a name. -/
def afterLastDot (name : Text) : Text := (Text.pieces '.' name).getLastD []

/-- The extension of a path, with its dot, as it is written. A dot at the start or at the end of the
last component makes no extension. -/
def suffix (path : Text) : Text :=
  let n := name path
  let tail := afterLastDot n
  if tail ≠ [] && tail.length + 1 < n.length then '.' :: tail else []

/-- The extension of a path, lower-cased. -/
def extension (path : Text) : Text := Text.lower (suffix path)

/-- Whether a path has an extension. -/
def hasExtension (path : Text) : Bool := extension path ≠ []

/-- An extension as it is compared: lower-cased, with a dot. -/
def dotted (extension : Text) : Text :=
  if extension.head? = some '.' then Text.lower extension else '.' :: Text.lower extension

/-- Whether a path has one of some extensions, which may be given without a dot. -/
def matchesAny (path : Text) (extensions : List Text) : Bool :=
  hasExtension path && (extensions.map dotted).contains (extension path)

end PhpPrefixer.Path
