import PhpPrefixer.Name
import PhpPrefixer.NativeSymbols.Tables

/-!
# Native symbols

The symbols that belong to PHP itself. Classes and functions are recognised in any case, constants
in the case they are documented in, apart from `true`, `false` and `null`. Namespaces are never
native.
-/

namespace PhpPrefixer

/-- The built-in symbols, in the form under which they are looked up, each once. -/
structure NativeSymbols where
  /-- Classes. -/
  classes : List Text
  /-- Functions. -/
  functions : List Text
  /-- Constants. -/
  constants : List Text
  deriving DecidableEq, Repr

namespace NativeSymbols

/-- No symbol at all. -/
def empty : NativeSymbols := ⟨[], [], []⟩

/-- The members of a table together with the keys of further names. -/
def extendTable (kind : SymbolKind) (table names : List Text) : List Text :=
  names.foldl (fun table name =>
    let key := Name.key kind name
    if table.contains key then table else table ++ [key]) table

/-- The symbols together with further ones. -/
def extend (n : NativeSymbols) (classes functions constants : List Text) : NativeSymbols where
  classes := extendTable .classLike n.classes classes
  functions := extendTable .function n.functions functions
  constants := extendTable .constant n.constants constants

/-- The symbols of PHP. -/
def php : NativeSymbols :=
  empty.extend (classNames.map String.toList) (functionNames.map String.toList)
    (constantNames.map String.toList)

/-- The number of symbols. -/
def size (n : NativeSymbols) : Nat := n.classes.length + n.functions.length + n.constants.length

/-- The symbols that are used where these are given: those of PHP if there are none. -/
def orPhp : Option NativeSymbols → NativeSymbols
  | some n => if n.size = 0 then php else n
  | none => php

/-- The constants that are recognised in any case. -/
def caselessConstants : List Text := ["true", "false", "null"].map String.toList

/-- Whether a name of some kind is built in. -/
def contains (n : NativeSymbols) (kind : SymbolKind) (name : Text) : Bool :=
  match kind with
  | .nameSpace => false
  | .classLike => n.classes.contains (Name.key kind name)
  | .function => n.functions.contains (Name.key kind name)
  | .constant =>
    caselessConstants.contains (Text.lower (Name.bare name))
      || n.constants.contains (Name.key kind name)

end NativeSymbols

end PhpPrefixer
