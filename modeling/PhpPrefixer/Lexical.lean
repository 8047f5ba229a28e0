import PhpPrefixer.Name

/-!
# Lexical scope and name resolution

At each place of a file a namespace is current and a number of names are imported. A name written
there denotes the symbol `Lexical.resolve` gives:

* a name with a leading separator is taken as it is written;
* a name that starts with the word `namespace` is relative to the current namespace;
* a name with several segments goes through the import of its first segment, if there is one, and
  else belongs to the current namespace;
* a name of one segment goes through the imports of its kind, and else belongs to the current
  namespace; functions and constants of a named namespace may then still turn out to be global ones
  when the program runs, so such a name is ambiguous.
-/

namespace PhpPrefixer

/-- The names imported for each kind of symbol: the local name and what it stands for. -/
structure Imports where
  /-- Imported classes and namespaces. -/
  classes : List (Text × Text)
  /-- Imported functions. -/
  functions : List (Text × Text)
  /-- Imported constants. -/
  constants : List (Text × Text)
  deriving DecidableEq, Repr

namespace Imports

/-- No imports. -/
def empty : Imports := ⟨[], [], []⟩

/-- The form of a local name under which it is found. -/
def localKey (kind : SymbolKind) (localName : Text) : Text :=
  if kind = .constant then localName else Text.lower localName

/-- The imports for a kind. There are none for namespaces, which are imported like classes. -/
def table (i : Imports) : SymbolKind → List (Text × Text)
  | .nameSpace => []
  | .classLike => i.classes
  | .function => i.functions
  | .constant => i.constants

/-- What a local name stands for. -/
def find? (i : Imports) (kind : SymbolKind) (localName : Text) : Option Text :=
  ((i.table kind).find? fun entry => entry.1 = localKey kind localName).map (·.2)

/-- A table with an entry in place of the one with the same local name. -/
def put (table : List (Text × Text)) (key target : Text) : List (Text × Text) :=
  table.filter (fun entry => entry.1 ≠ key) ++ [(key, target)]

/-- The imports with one more. -/
def add (i : Imports) (kind : SymbolKind) (localName target : Text) : Imports :=
  let key := localKey kind localName
  match kind with
  | .nameSpace => i
  | .classLike => { i with classes := put i.classes key target }
  | .function => { i with functions := put i.functions key target }
  | .constant => { i with constants := put i.constants key target }

end Imports

/-- What is in force at a place of a file. -/
structure Lexical where
  /-- The current namespace as it is written, empty for the global one. -/
  space : Text
  /-- Whether the current namespace moves under the prefix. -/
  moved : Bool
  /-- The imported names. -/
  imports : Imports
  deriving DecidableEq, Repr

/-- How a name is written. -/
inductive Spelling where
  /-- With a leading separator. -/
  | fullyQualified
  /-- After the word `namespace`. -/
  | relative
  /-- With several segments. -/
  | qualified
  /-- With one segment. -/
  | unqualified
  deriving DecidableEq, Repr

/-- The word for a spelling. -/
def Spelling.word : Spelling → String
  | fullyQualified => "fully_qualified"
  | relative => "relative"
  | qualified => "qualified"
  | unqualified => "unqualified"

/-- What a written name denotes. -/
structure Resolved where
  /-- The name of the symbol, without leading separator. -/
  name : Text
  /-- How the name is written. -/
  spelling : Spelling
  /-- Whether an import was involved. -/
  imported : Bool := false
  /-- Whether a global symbol may be meant instead. -/
  ambiguous : Bool := false
  deriving DecidableEq, Repr

namespace Lexical

/-- The scope at the start of a file. -/
def start : Lexical := ⟨[], true, .empty⟩

/-- The scope in a new namespace; imports do not carry over. -/
def entered (space : Text) (moved : Bool) : Lexical := ⟨space, moved, .empty⟩

/-- The scope with one more import. -/
def importing (scope : Lexical) (kind : SymbolKind) (localName target : Text) : Lexical :=
  { scope with imports := scope.imports.add kind localName target }

/-- What names relative to the current namespace start with, lower-cased. -/
def relativeMark : Text := "namespace\\".toList

/-- What a written name denotes. -/
def resolve (scope : Lexical) (kind : SymbolKind) (text : Text) : Resolved :=
  if text.head? = some Name.separator then
    { name := text.drop 1, spelling := .fullyQualified }
  else if relativeMark.isPrefixOf (Text.lower text) then
    { name := Name.join [scope.space, text.drop relativeMark.length], spelling := .relative }
  else
    match Text.cut? [Name.separator] text with
    | some (first, rest) =>
      match scope.imports.find? .classLike first with
      | some target =>
        { name := Name.join [target, rest], spelling := .qualified, imported := true }
      | none => { name := Name.join [scope.space, text], spelling := .qualified }
    | none =>
      match scope.imports.find? kind text with
      | some target => { name := target, spelling := .unqualified, imported := true }
      | none =>
        { name := Name.join [scope.space, text], spelling := .unqualified,
          ambiguous := kind ≠ .classLike && scope.space ≠ [] }

end Lexical

end PhpPrefixer
