/-!
# Kinds of symbol

The four kinds of symbol a PHP file can declare. Namespaces, classes and functions are compared
without regard to case; the short name of a constant is compared as it is written.
-/

namespace PhpPrefixer

/-- A kind of symbol. Interfaces, traits and enumerations count as classes. -/
inductive SymbolKind where
  /-- A namespace. -/
  | nameSpace
  /-- A class, interface, trait or enumeration. -/
  | classLike
  /-- A function. -/
  | function
  /-- A constant outside any class. -/
  | constant
  deriving DecidableEq, Repr

namespace SymbolKind

/-- The word for a kind in messages and records. -/
def word : SymbolKind → String
  | nameSpace => "namespace"
  | classLike => "class"
  | function => "function"
  | constant => "constant"

/-- Every kind. -/
def all : List SymbolKind := [nameSpace, classLike, function, constant]

/-- Whether the short name of a symbol of this kind is compared with its case. -/
def caseSensitive (kind : SymbolKind) : Bool := kind = constant

/-- The kind a word stands for. -/
def ofWord? (word : String) : Option SymbolKind := all.find? fun kind => kind.word = word

/-- A kind is known by its word. -/
theorem ofWord?_word (kind : SymbolKind) : ofWord? kind.word = some kind := by
  cases kind <;> decide

end SymbolKind

end PhpPrefixer
