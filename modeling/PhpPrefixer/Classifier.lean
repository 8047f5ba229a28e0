import PhpPrefixer.NativeSymbols
import PhpPrefixer.Whitelist

/-!
# Classification

Every symbol is renamed or kept. It is kept because it is native, which only global names can be,
or because the whitelist says so.
-/

namespace PhpPrefixer

/-- What becomes of a symbol. -/
inductive Classification where
  /-- It moves under the prefix. -/
  | rename
  /-- It belongs to PHP. -/
  | keepNative
  /-- It is excluded or exposed. -/
  | keepWhitelisted
  deriving DecidableEq, Repr

namespace Classification

/-- The word for a classification. -/
def word : Classification → String
  | rename => "rename"
  | keepNative => "keep_native"
  | keepWhitelisted => "keep_whitelisted"

/-- Whether the symbol stays. -/
def keeps (c : Classification) : Bool := c ≠ rename

end Classification

/-- What decides about symbols. -/
structure Classifier where
  /-- The built-in symbols. -/
  natives : NativeSymbols
  /-- The exclusion rules. -/
  whitelist : Whitelist

namespace Classifier

/-- What becomes of a symbol. -/
def classify (c : Classifier) (kind : SymbolKind) (name : Text) : Classification :=
  let name := Name.bare name
  if kind ≠ .nameSpace && Name.isGlobal name && c.natives.contains kind name then .keepNative
  else if c.whitelist.excludes kind name then .keepWhitelisted
  else if c.whitelist.exposes kind name then .keepWhitelisted
  else .rename

/-- Whether a symbol moves under the prefix. -/
def renames (c : Classifier) (kind : SymbolKind) (name : Text) : Bool :=
  c.classify kind name = .rename

/-- Whether a symbol keeps its references but is still declared under the prefix. -/
def exposes (c : Classifier) (kind : SymbolKind) (name : Text) : Bool :=
  let name := Name.bare name
  !c.natives.contains kind name && !c.whitelist.excludes kind name
    && c.whitelist.exposes kind name

end Classifier

end PhpPrefixer
