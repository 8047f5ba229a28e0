import PhpPrefixer.Classifier
import PhpPrefixer.Lexical

/-!
# What becomes of a name

Once the namespace of a file has moved under the prefix, a name that is found through the namespace
already denotes the moved symbol. Names with a leading separator, and names in a namespace that stays
where it is, have to be written anew. Symbols that are kept but would be found through a moved
namespace are pinned with a leading separator.

The functions here only decide. What they decide is carried out by the walk through the file.
-/

namespace PhpPrefixer

/-- What decides about the names of a run. -/
structure Relocation where
  /-- The prefix. -/
  root : Text
  /-- What decides about symbols. -/
  classifier : Classifier

/-- What is done about a reference. -/
structure ReferenceMove where
  /-- What is written in its place. -/
  replacement : Option Text := none
  /-- The name before and after, if the symbol is renamed. -/
  rename : Option (Text × Text) := none
  deriving DecidableEq, Repr

/-- What is done about a declaration. -/
inductive Declaring where
  /-- Nothing. -/
  | ignored
  /-- Its symbol is renamed. -/
  | renamed (name target : Text)
  /-- Its symbol is kept by the whitelist, but its namespace moves. -/
  | stranded (name : Text)
  /-- Its name is that of a native symbol. -/
  | shadowing (name : Text)
  deriving DecidableEq, Repr

/-- A name found in a string. -/
structure Mention where
  /-- The kind of its symbol. -/
  kind : SymbolKind
  /-- The name before. -/
  name : Text
  /-- The name after. -/
  renamed : Text
  /-- The new contents of the string. -/
  spelled : Text
  deriving DecidableEq, Repr

namespace Relocation

/-- The name moved under the prefix. -/
def relocate (r : Relocation) (name : Text) : Text := Name.relocate r.root name

/-- Whether a name is already under the prefix. -/
def hasMoved (r : Relocation) (name : Text) : Bool := Name.isUnder r.root name

/-- Whether a symbol is to be renamed: it is not yet under the prefix, and nothing keeps it. -/
def moves (r : Relocation) (kind : SymbolKind) (name : Text) : Bool :=
  !r.hasMoved name && r.classifier.renames kind name

/-- Whether a name at a place of this kind is no reference to a symbol. -/
def isNoReference (kind : SymbolKind) (text : Text) : Bool :=
  text = [] || (kind = .classLike && Name.isReservedClass text) || Name.isConstruct kind text

/-- What is done about a resolved name. -/
def referenceResolved (r : Relocation) (moved : Bool) (kind : SymbolKind) (n : Resolved) :
    ReferenceMove :=
  if n.ambiguous || n.name = [] || r.hasMoved n.name then {}
  else if r.classifier.classify kind n.name = .rename then
    let renamed := r.relocate n.name
    let written := n.spelling = .fullyQualified || (!n.imported && !moved)
    { replacement := if written then some (Name.separator :: renamed) else none,
      rename := some (n.name, renamed) }
  else if n.spelling ≠ .fullyQualified && !n.imported && moved then
    { replacement := some (Name.separator :: n.name) }
  else {}

/-- What is done about a name that refers to a class, function or constant. -/
def reference (r : Relocation) (scope : Lexical) (kind : SymbolKind) (text : Text) :
    ReferenceMove :=
  if isNoReference kind text then {}
  else r.referenceResolved scope.moved kind (scope.resolve kind text)

/-- What is done about a symbol declared with a short name. -/
def declare (r : Relocation) (scope : Lexical) (kind : SymbolKind) (short : Text) : Declaring :=
  let name := Name.join [scope.space, short]
  if !scope.moved || r.hasMoved name then .ignored
  else
    let decision := r.classifier.classify kind name
    if decision = .rename || r.classifier.exposes kind name then
      .renamed name (r.relocate name)
    else if decision = .keepWhitelisted then .stranded name
    else .shadowing name

/-- What separates a class from its member in a string. -/
def memberMark : Text := [':', ':']

/-- The name that is all of a string, if it is to be renamed. -/
def mentionOf? (r : Relocation) (kind : SymbolKind) (value : Text) : Option Mention :=
  if !Name.isSymbolName value || Name.isReservedClass (Name.bare value) then none
  else
    let name := Name.bare value
    if r.moves kind name then
      let renamed := r.relocate name
      let leading := if value.head? = some Name.separator then [Name.separator] else []
      some ⟨kind, name, renamed, leading ++ renamed⟩
    else none

/-- The name held in a string, if it is to be renamed. Names in strings are fully qualified; in front
of a member stands a class. -/
def mention? (r : Relocation) (kind : SymbolKind) (value : Text) : Option Mention :=
  match Text.cut? memberMark value with
  | some (holder, member) =>
    (r.mentionOf? .classLike holder).map fun m =>
      { m with spelled := m.spelled ++ memberMark ++ member }
  | none => r.mentionOf? kind value

end Relocation

end PhpPrefixer
