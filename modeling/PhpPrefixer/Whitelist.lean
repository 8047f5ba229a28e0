import PhpPrefixer.Name
import PhpPrefixer.Pattern

/-!
# The whitelist

Which of the user's symbols stay unprefixed: exact names, whole namespaces, names that match a
pattern, and global symbols of the kinds that are exposed. Names are held in the form under which
they are looked up, sorted and each once, so that two whitelists that exclude the same names are
equal.
-/

namespace PhpPrefixer

/-- The exclusion rules as a user writes them. -/
structure WhitelistOptions where
  /-- Namespaces left alone with all below them. -/
  excludedNamespaces : List Text := []
  /-- Patterns for namespaces. -/
  namespacePatterns : List Text := []
  /-- Classes; an entry that ends in a separator and a star stands for a namespace. -/
  classes : List Text := []
  /-- Patterns for classes. -/
  classPatterns : List Text := []
  /-- Functions. -/
  functions : List Text := []
  /-- Patterns for functions. -/
  functionPatterns : List Text := []
  /-- Constants. -/
  constants : List Text := []
  /-- Patterns for constants. -/
  constantPatterns : List Text := []
  /-- References to global classes are kept. -/
  exposeGlobalClasses : Bool := false
  /-- References to global functions are kept. -/
  exposeGlobalFunctions : Bool := false
  /-- References to global constants are kept. -/
  exposeGlobalConstants : Bool := false
  deriving DecidableEq, Repr

/-- The exclusion rules in force. -/
structure Whitelist where
  /-- Excluded namespaces, lower-cased and without separators around them. -/
  excludedNamespaces : List Text
  /-- Patterns for namespaces. -/
  namespacePatterns : List Pattern
  /-- Keys of excluded classes. -/
  classes : List Text
  /-- Patterns for classes. -/
  classPatterns : List Pattern
  /-- Keys of excluded functions. -/
  functions : List Text
  /-- Patterns for functions. -/
  functionPatterns : List Pattern
  /-- Keys of excluded constants. -/
  constants : List Text
  /-- Patterns for constants. -/
  constantPatterns : List Pattern
  /-- References to global classes are kept. -/
  exposeGlobalClasses : Bool
  /-- References to global functions are kept. -/
  exposeGlobalFunctions : Bool
  /-- References to global constants are kept. -/
  exposeGlobalConstants : Bool

namespace Whitelist

/-- A sorted list with one more member, if it is new. -/
def insertSorted (t : Text) : List Text → List Text
  | [] => [t]
  | u :: us => if t < u then t :: u :: us else if t = u then u :: us else u :: insertSorted t us

/-- The members of a list in increasing order, each once. -/
def sortedSet (ts : List Text) : List Text := ts.foldr insertSorted []

/-- The form in which namespaces are compared. -/
def namespaceKey (space : Text) : Text := Text.lower (Name.trimmed space)

/-- The namespace a class entry stands for, when it ends in a separator and a star. -/
def starred? (entry : Text) : Option Text :=
  match entry.reverse with
  | '*' :: '\\' :: rest => some rest.reverse
  | _ => none

/-- No rules. -/
def empty : Whitelist where
  excludedNamespaces := []
  namespacePatterns := []
  classes := []
  classPatterns := []
  functions := []
  functionPatterns := []
  constants := []
  constantPatterns := []
  exposeGlobalClasses := false
  exposeGlobalFunctions := false
  exposeGlobalConstants := false

/-- The rules a user wrote, with patterns in a dialect. -/
def ofOptions (o : WhitelistOptions) (dialect : Dialect := .standard) :
    Except PatternError Whitelist := do
  let namespacePatterns ← o.namespacePatterns.mapM dialect.read
  let classPatterns ← o.classPatterns.mapM dialect.read
  let functionPatterns ← o.functionPatterns.mapM dialect.read
  let constantPatterns ← o.constantPatterns.mapM dialect.read
  let spaces := o.excludedNamespaces ++ o.classes.filterMap starred?
  let exact := o.classes.filter fun entry => (starred? entry).isNone
  return {
    excludedNamespaces := sortedSet (spaces.map namespaceKey)
    namespacePatterns
    classes := sortedSet (exact.map (Name.key .classLike))
    classPatterns
    functions := sortedSet (o.functions.map (Name.key .function))
    functionPatterns
    constants := sortedSet (o.constants.map (Name.key .constant))
    constantPatterns
    exposeGlobalClasses := o.exposeGlobalClasses
    exposeGlobalFunctions := o.exposeGlobalFunctions
    exposeGlobalConstants := o.exposeGlobalConstants }

/-- The rules written out again. -/
def toOptions (w : Whitelist) : WhitelistOptions where
  excludedNamespaces := w.excludedNamespaces
  namespacePatterns := w.namespacePatterns.map (·.written)
  classes := w.classes
  classPatterns := w.classPatterns.map (·.written)
  functions := w.functions
  functionPatterns := w.functionPatterns.map (·.written)
  constants := w.constants
  constantPatterns := w.constantPatterns.map (·.written)
  exposeGlobalClasses := w.exposeGlobalClasses
  exposeGlobalFunctions := w.exposeGlobalFunctions
  exposeGlobalConstants := w.exposeGlobalConstants

/-- The exact entries for a kind. -/
def exactOf (w : Whitelist) : SymbolKind → List Text
  | .nameSpace => []
  | .classLike => w.classes
  | .function => w.functions
  | .constant => w.constants

/-- The patterns for a kind. -/
def patternsOf (w : Whitelist) : SymbolKind → List Pattern
  | .nameSpace => w.namespacePatterns
  | .classLike => w.classPatterns
  | .function => w.functionPatterns
  | .constant => w.constantPatterns

/-- Whether an excluded namespace covers another one; both are in the form they are compared in. -/
def covers (excluded space : Text) : Bool :=
  space = excluded || (excluded ≠ [] && (excluded ++ [Name.separator]).isPrefixOf space)

/-- Whether a namespace or one above it is excluded. -/
def excludesNamespace (w : Whitelist) (space : Text) : Bool :=
  w.excludedNamespaces.any (covers · (namespaceKey space))
    || w.namespacePatterns.any (·.found (Name.bare space))

/-- Whether a symbol is excluded by its name, by a pattern or by its namespace. -/
def excludes (w : Whitelist) (kind : SymbolKind) (name : Text) : Bool :=
  if kind = .nameSpace then w.excludesNamespace name
  else if (w.exactOf kind).contains (Name.key kind name) then true
  else if (w.patternsOf kind).any (·.found (Name.bare name)) then true
  else
    let space := Name.namespaceOf name
    if space ≠ [] || w.excludedNamespaces.contains [] then w.excludesNamespace space else false

/-- Whether global symbols of a kind are exposed. -/
def exposesKind (w : Whitelist) : SymbolKind → Bool
  | .nameSpace => false
  | .classLike => w.exposeGlobalClasses
  | .function => w.exposeGlobalFunctions
  | .constant => w.exposeGlobalConstants

/-- Whether a name is global and its kind is exposed. -/
def exposes (w : Whitelist) (kind : SymbolKind) (name : Text) : Bool :=
  Name.isGlobal name && w.exposesKind kind

end Whitelist

end PhpPrefixer
