import PhpPrefixer.Proofs.SymbolIdentity

/-!
# Decisions about symbols

What is asked about a symbol is answered from tables and rules that each look at the name in a way of
their own: at its key, at its lower-cased whole, at its namespace, or at whether it has one. Without
patterns none of them tells two spellings of one symbol apart, so all decisions are decisions about the
symbol: `Classifier.decided_by_key`. A symbol that is exposed is one that is kept.
-/

namespace PhpPrefixer.Classifier

variable {c : Classifier} {kind : SymbolKind} {name : Text}

/-- A separator in front does not change what becomes of a symbol. -/
theorem classify_bare (h : Name.IsTrimmed (Name.bare name)) :
    c.classify kind (Name.bare name) = c.classify kind name := by
  simp only [classify, Name.bare_of_isTrimmed h]

/-- A separator in front does not change whether a symbol is exposed. -/
theorem exposes_bare (h : Name.IsTrimmed (Name.bare name)) :
    c.exposes kind (Name.bare name) = c.exposes kind name := by
  simp only [exposes, Name.bare_of_isTrimmed h]

/-- Rules without patterns expose alike the names with one key. -/
theorem exposes_congr (hw : c.whitelist.HasNoPatterns) {a b : Text} (ha : Name.IsTrimmed a)
    (hb : Name.IsTrimmed b) (h : Name.key kind a = Name.key kind b) :
    c.exposes kind a = c.exposes kind b := by
  have hglobal := Name.isGlobal_congr ha hb (Name.lower_eq_of_key_eq ha hb h)
  simp only [exposes, Name.bare_of_isTrimmed ha, Name.bare_of_isTrimmed hb,
    NativeSymbols.contains_congr ha hb h, Whitelist.excludes_congr hw ha hb h,
    Whitelist.exposes_congr hglobal]

/-- What is exposed is kept by the exclusion rules, and not as a native symbol. -/
theorem classify_of_exposes (h : c.exposes kind name = true) :
    c.classify kind name = .keepWhitelisted := by
  simp only [exposes, Bool.and_eq_true, Bool.not_eq_true'] at h
  obtain ⟨⟨hnative, hexcluded⟩, hexposed⟩ := h
  simp [classify, hnative, hexcluded, hexposed]

/-- The answers about two names are the same. -/
structure DecidesAlike (c : Classifier) (kind : SymbolKind) (a b : Text) : Prop where
  /-- The same becomes of both symbols. -/
  classify : c.classify kind a = c.classify kind b
  /-- Both are renamed, or neither is. -/
  renames : c.renames kind a = c.renames kind b
  /-- Both are exposed, or neither is. -/
  exposes : c.exposes kind a = c.exposes kind b

/-- Decisions are decisions about symbols. Rules without patterns give the same answers about two well-formed
names with one key, each of them with or without a separator in front: what becomes of the symbol, whether
it is renamed, and whether it is exposed. Under any rules, what is exposed is kept as whitelisted. -/
theorem decided_by_key (c : Classifier) (kind : SymbolKind) :
    (c.whitelist.HasNoPatterns → ∀ a b, Name.WellFormed a → Name.WellFormed b →
        Name.key kind a = Name.key kind b → c.DecidesAlike kind a b)
      ∧ ∀ name, c.exposes kind name = true → c.classify kind name = .keepWhitelisted := by
  refine ⟨fun hw a b ha hb hkey => ?_, fun name => classify_of_exposes⟩
  have hbare : Name.key kind (Name.bare a) = Name.key kind (Name.bare b) := by
    rw [Name.IsSinglyLed.key_bare ha.isTrimmed_bare.1, Name.IsSinglyLed.key_bare hb.isTrimmed_bare.1, hkey]
  have hclassify : c.classify kind a = c.classify kind b := by
    rw [← classify_bare ha.isTrimmed_bare, ← classify_bare hb.isTrimmed_bare]
    exact classify_congr hw ha.isTrimmed_bare hb.isTrimmed_bare hbare
  have hexposes : c.exposes kind a = c.exposes kind b := by
    rw [← exposes_bare ha.isTrimmed_bare, ← exposes_bare hb.isTrimmed_bare]
    exact exposes_congr hw ha.isTrimmed_bare hb.isTrimmed_bare hbare
  exact ⟨hclassify, by rw [renames, renames, hclassify], hexposes⟩

/-- One constant is excluded, a namespace is excluded as a whole, and global constants are exposed. -/
def mixedRules : Classifier where
  natives := .empty
  whitelist := { Whitelist.empty with
    excludedNamespaces := ["acme".toList]
    constants := ["lib\\MAX".toList]
    exposeGlobalConstants := true }

/-- Namespaces of constants are spelled in any letter case, their short names are not. A global constant is
exposed with and without a separator in front. -/
theorem decided_by_key_constants :
    let c := mixedRules
    c.classify .constant "\\LIB\\MAX".toList = c.classify .constant "Lib\\MAX".toList
      ∧ c.renames .constant "\\LIB\\MAX".toList = false
      ∧ c.renames .constant "Lib\\max".toList = true
      ∧ c.exposes .constant "\\MAX".toList = c.exposes .constant "MAX".toList
      ∧ c.classify .constant "\\MAX".toList = .keepWhitelisted := by
  intro c
  have hw : c.whitelist.HasNoPatterns := by
    intro kind
    cases kind with
    | nameSpace => rfl
    | classLike => rfl
    | function => rfl
    | constant => rfl
  obtain ⟨hkey, hexposed⟩ := decided_by_key c .constant
  have hnamed := hkey hw "\\LIB\\MAX".toList "Lib\\MAX".toList (by decide +kernel)
    (by decide +kernel) (by decide +kernel)
  have hglobal := hkey hw "\\MAX".toList "MAX".toList (by decide +kernel)
    (by decide +kernel) (by decide +kernel)
  exact ⟨hnamed.classify, by decide +kernel, by decide +kernel, hglobal.exposes,
    hexposed _ (by decide +kernel)⟩

end PhpPrefixer.Classifier
