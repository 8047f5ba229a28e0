import PhpPrefixer.Prefixing.Namespaces
import PhpPrefixer.Proofs.Resolution
import PhpPrefixer.Proofs.SymbolIdentity

/-!
# Declarations and references

A symbol is declared where its namespace goes, and what is decided there concerns the namespace. A
reference, in this file or in another one, is decided by the name of the symbol itself, in whatever
letter case it is spelled. Both agree when no rule is a pattern and none names the symbol
(`Relocation.FollowsNamespace.classify_eq_rename_iff`), so every reference finds the symbol where its
declaration puts it: `FileSetting.reference_finds_declaration`.
-/

namespace PhpPrefixer

/-- A reference that denotes one symbol for certain, where it stands. -/
structure Lexical.IsCertain (scope : Lexical) (kind : SymbolKind) (text : Text) : Prop where
  /-- It is a well-formed name. -/
  wellFormed : Name.WellFormed text
  /-- It is no reserved word and no construct of the language. -/
  isReference : Relocation.isNoReference kind text = false
  /-- No global symbol may be meant instead. -/
  unambiguous : (scope.resolve kind text).ambiguous = false
  /-- It is not qualified by an imported name. -/
  direct : ¬((scope.resolve kind text).spelling = .qualified
    ∧ (scope.resolve kind text).imported = true)

/-- A reference that can be read in one way only is plain, if its symbol is not under the prefix yet. -/
theorem Lexical.IsCertain.isPlain {r : Relocation} {scope : Lexical} {kind : SymbolKind}
    {text : Text} (h : scope.IsCertain kind text)
    (hunmoved : r.hasMoved (scope.resolve kind text).name = false) : r.IsPlain scope kind text :=
  ⟨h.wellFormed, h.isReference, h.unambiguous, h.direct, hunmoved⟩

namespace Relocation

/-- A class, function or constant of a named namespace that no rule names, and that is not under the
prefix yet: what becomes of it is decided by its namespace. -/
structure FollowsNamespace (r : Relocation) (kind : SymbolKind) (space short : Text) : Prop where
  /-- It is no namespace itself. -/
  isSymbol : kind ≠ .nameSpace
  /-- Its namespace is well-formed. -/
  wellFormed : Name.WellFormed space
  /-- Its short name is one segment. -/
  isShort : Name.IsShort short
  /-- Its namespace is not under the prefix yet. -/
  unmovedSpace : r.hasMoved (Name.bare space) = false
  /-- It is not under the prefix yet itself. -/
  unmoved : r.hasMoved (Name.join [space, short]) = false
  /-- No rule names it. -/
  unlisted : Name.key kind (Name.join [space, short]) ∉ r.classifier.whitelist.exactOf kind

namespace FollowsNamespace

variable {r : Relocation} {kind : SymbolKind} {space short : Text}

/-- The declared name is the namespace and the short name with a separator between them. -/
theorem join_eq (h : r.FollowsNamespace kind space short) :
    Name.join [space, short] = Name.bare space ++ Name.separator :: short := by
  rw [Name.join_pair, ← Name.trimmed_bare, Name.trimmed_of_isTrimmed h.wellFormed.isTrimmed_bare,
    Name.trimmed_of_isTrimmed h.isShort.isTrimmed,
    Name.beside_of_ne_nil h.wellFormed.bare_ne_nil h.isShort.ne_nil]

/-- The declared name has no separators around it. -/
theorem isTrimmed (_ : r.FollowsNamespace kind space short) :
    Name.IsTrimmed (Name.join [space, short]) := Name.isTrimmed_join _

/-- The declared name is not global. -/
theorem isGlobal_eq_false (h : r.FollowsNamespace kind space short) :
    Name.isGlobal (Name.join [space, short]) = false := by
  rw [Bool.eq_false_iff, ne_eq, Name.isGlobal_iff, Name.bare_of_isTrimmed h.isTrimmed, h.join_eq]
  simp

/-- The declared name is in its namespace. -/
theorem namespaceOf_join (h : r.FollowsNamespace kind space short) :
    Name.namespaceOf (Name.join [space, short]) = Name.bare space := by
  have hsegments : Name.segments (Name.join [space, short])
      = Name.segments (Name.bare space) ++ [short] := by
    rw [h.join_eq, Name.segments, Text.pieces_append_sep,
      Text.pieces_of_not_mem h.isShort.separator_not_mem]
    rfl
  rw [Name.namespaceOf, Name.split_of_segments h.isTrimmed hsegments, Name.glue_segments]

/-- The symbol is excluded if and only if its namespace is. -/
theorem excludes_eq (h : r.FollowsNamespace kind space short)
    (hw : r.classifier.whitelist.HasNoPatterns) :
    r.classifier.whitelist.excludes kind (Name.join [space, short])
      = r.classifier.whitelist.excludesNamespace (Name.bare space) := by
  simp [Whitelist.excludes, h.isSymbol, h.namespaceOf_join, h.wellFormed.bare_ne_nil, hw kind,
    h.unlisted]

/-- The symbol is renamed if and only if its namespace moves. -/
theorem classify_eq_rename_iff (h : r.FollowsNamespace kind space short)
    (hw : r.classifier.whitelist.HasNoPatterns) :
    r.classifier.classify kind (Name.join [space, short]) = .rename
      ↔ r.moves .nameSpace (Name.bare space) = true := by
  have hbare := Name.bare_of_isTrimmed h.wellFormed.isTrimmed_bare
  have hsymbol : r.classifier.classify kind (Name.join [space, short]) = .rename
      ↔ r.classifier.whitelist.excludesNamespace (Name.bare space) = false := by
    simp [Classifier.classify, Name.bare_of_isTrimmed h.isTrimmed, h.isGlobal_eq_false,
      Whitelist.exposes, h.excludes_eq hw]
  have hspace : r.moves .nameSpace (Name.bare space) = true
      ↔ r.classifier.whitelist.excludesNamespace (Name.bare space) = false := by
    simp [moves, h.unmovedSpace, Classifier.renames, Classifier.classify, hbare,
      Whitelist.excludes, Whitelist.exposes, Whitelist.exposesKind]
  rw [hsymbol, hspace]

/-- A certain reference to the symbol, in any spelling, denotes afterwards the symbol under the
prefix if its namespace moves, and the symbol itself if its namespace stays. -/
theorem key_resolve_rewritten (h : r.FollowsNamespace kind space short)
    (hroot : Name.IsRoot r.root) (hw : r.classifier.whitelist.HasNoPatterns) {scope : Lexical}
    {text : Text} (hcertain : scope.IsCertain kind text)
    (hkey : Name.key kind (scope.resolve kind text).name
      = Name.key kind (Name.join [space, short])) :
    Name.key kind ((r.scopeAfter scope).resolve kind (r.rewritten scope kind text)).name
      = Name.key kind
        (if r.moves .nameSpace (Name.bare space) then r.relocate (Name.join [space, short])
          else Name.join [space, short]) := by
  have hplain : r.IsPlain scope kind text := hcertain.isPlain
    (Name.isUnder_of_key_eq hroot h.isTrimmed h.isGlobal_eq_false hkey h.unmoved)
  have hclass := Classifier.classify_of_key_eq hw h.isTrimmed h.isGlobal_eq_false hkey
  by_cases hmoves : r.moves .nameSpace (Name.bare space) = true
  · have hrename := hclass.trans ((h.classify_eq_rename_iff hw).mpr hmoves)
    rw [if_pos hmoves, resolve_rewritten_of_rename hroot hplain hrename]
    exact Name.key_relocate_of_key_eq hroot h.isTrimmed h.isGlobal_eq_false hkey
  · have hkeep : r.classifier.classify kind (scope.resolve kind text).name ≠ .rename := by
      rw [hclass, ne_eq, h.classify_eq_rename_iff hw]
      exact hmoves
    rw [if_neg hmoves, resolve_rewritten_of_keep hplain hkeep, hkey]

end FollowsNamespace

end Relocation

namespace FileSetting

/-- A symbol is declared in one file and referred to in another one, by any name that denotes it.
The declaration and the reference are both carried out. Afterwards the reference denotes the symbol
where it is then declared: under the prefix if its namespace has moved, and where it was if not. -/
theorem reference_finds_declaration (home away : FileSetting) {r : Relocation}
    (hhome : home.relocation = r) (haway : away.relocation = r)
    (hroot : Prefix.validate (some r.root) = .ok r.root)
    (hw : r.classifier.whitelist.HasNoPatterns) {kind : SymbolKind} {space short : Text}
    (hsymbol : r.FollowsNamespace kind space short) {n nameNode : Node} (s : FileState)
    (hname : n.child? "name" = some nameNode) (hspace : home.source.text? nameNode = some space)
    {m : Node} {text : Text} (t : FileState) (htext : away.source.text? m = some text)
    (hcertain : t.scope.IsCertain kind text)
    (hkey : Name.key kind (t.scope.resolve kind text).name
      = Name.key kind (Name.join [space, short])) :
    ∃ s' t' written,
      ((Prefixing.enterDeclaration home n).run s).outcome = .ok ((), s')
        ∧ s'.scope = .entered (Name.bare space) (r.moves .nameSpace (Name.bare space))
        ∧ s'.edits = s.edits ++
          (if s'.scope.moved then [.replacing nameNode (r.relocate (Name.bare space))] else [])
        ∧ ((away.moveReference kind m).run t).outcome = .ok ((), t')
        ∧ ((t'.edits = t.edits ∧ written = text) ∨ t'.edits = t.edits ++ [.replacing m written])
        ∧ let declared := Name.join [(r.scopeAfter s'.scope).space, short]
          declared = (if s'.scope.moved then r.relocate (Name.join [space, short])
            else Name.join [space, short])
          ∧ Name.key kind ((r.scopeAfter t.scope).resolve kind written).name
            = Name.key kind declared := by
  subst hhome
  have hrootOf := Name.isRoot_of_validate hroot
  obtain ⟨s', hrun, hscope, hedits⟩ := Prefixing.outcome_enterDeclaration hname hspace s
  have hmoved : s'.scope.moved = home.relocation.moves .nameSpace (Name.bare space) := by
    rw [hscope]
    rfl
  have hjoin : Name.join [Name.bare space, short] = Name.join [space, short] := by
    rw [Name.join_pair, Name.join_pair, Name.trimmed_bare]
  have hdeclared : Name.join [(home.relocation.scopeAfter s'.scope).space, short]
      = if s'.scope.moved then home.relocation.relocate (Name.join [space, short])
        else Name.join [space, short] := by
    have hat : s'.scope.space = Name.bare space := by
      rw [hscope]
      rfl
    simp only [Relocation.scopeAfter, hat]
    split
    · rw [← hjoin]
      exact Name.relocate_join hrootOf (Name.bare space) short
    · exact hjoin
  let decided := away.relocation.reference t.scope kind text
  refine ⟨s', away.stateAfter kind m decided t, away.relocation.rewritten t.scope kind text, hrun,
    hscope, by rw [hedits, hmoved], outcome_moveReference kind t htext, ?_, hdeclared, ?_⟩
  · exact away.edits_stateAfter_rewritten kind m text t
  · rw [hdeclared, hmoved, haway]
    exact hsymbol.key_resolve_rewritten hrootOf hw hcertain hkey

/-- A class is declared in a namespace that moves, and referred to through an import in which both
its namespace and its name are in another letter case. -/
theorem reference_finds_declaration_letterCase :
    let r : Relocation :=
      ⟨"Humbug".toList, ⟨.empty, { Whitelist.empty with excludedNamespaces := ["vendor".toList] }⟩⟩
    let file (path : String) (text : Text) : FileSetting :=
      { path := path.toList, relocation := r, policy := .skip, warnDynamic := false,
        source := .ofText text }
    let nameNode : Node := .mk "namespace_name" true false ⟨10, 20⟩ (some "name") []
    let n : Node := .mk "namespace_definition" true false ⟨0, 21⟩ none [nameNode]
    let m : Node := .mk "name" true false ⟨0, 1⟩ none []
    let t : FileState :=
      ⟨(Lexical.entered "Vendor\\Http".toList false).importing .classLike "U".toList
        "app\\MODELS\\user".toList, [], []⟩
    r.FollowsNamespace .classLike "App\\Models".toList "User".toList
      ∧ t.scope.IsCertain .classLike "u".toList
      ∧ ∃ s' t' written,
        ((Prefixing.enterDeclaration (file "user.php" "namespace App\\Models;".toList) n).run
            .start).outcome = .ok ((), s')
          ∧ s'.edits = [.replacing nameNode "Humbug\\App\\Models".toList]
          ∧ (((file "http.php" "u".toList).moveReference .classLike m).run t).outcome = .ok ((), t')
          ∧ ((t'.edits = [] ∧ written = "u".toList) ∨ t'.edits = [.replacing m written])
          ∧ Name.join [(r.scopeAfter s'.scope).space, "User".toList]
            = "Humbug\\App\\Models\\User".toList
          ∧ Name.key .classLike ((r.scopeAfter t.scope).resolve .classLike written).name
            = "humbug\\app\\models\\user".toList := by
  intro r file nameNode n m t
  have hsymbol : r.FollowsNamespace .classLike "App\\Models".toList "User".toList :=
    ⟨by decide, by decide +kernel, ⟨by decide, by decide⟩, by decide +kernel, by decide +kernel,
      by decide +kernel⟩
  have hcertain : t.scope.IsCertain .classLike "u".toList :=
    ⟨by decide +kernel, by decide +kernel, by decide +kernel, by decide +kernel⟩
  have hw : r.classifier.whitelist.HasNoPatterns := by
    intro kind
    cases kind <;> rfl
  have hname : n.child? "name" = some nameNode := rfl
  have htext : (file "http.php" "u".toList).source.text? m = some "u".toList := by decide +kernel
  obtain ⟨s', t', written, hhome, hscope, hedits, haway, hwritten, hdeclared, hkey⟩ :=
    reference_finds_declaration (file "user.php" "namespace App\\Models;".toList)
      (file "http.php" "u".toList) rfl rfl (by decide +kernel) hw hsymbol .start hname
      (by decide +kernel) t htext hcertain (by decide +kernel)
  have hmoves : r.moves .nameSpace (Name.bare "App\\Models".toList) = true := by decide +kernel
  have hmoved : s'.scope.moved = true := by
    rw [hscope, hmoves]
    rfl
  rw [hmoved] at hedits hdeclared
  refine ⟨hsymbol, hcertain, s', t', written, hhome, ?_, haway, hwritten, ?_, ?_⟩
  · rw [hedits]
    decide +kernel
  · rw [hdeclared]
    decide +kernel
  · rw [hkey, hdeclared]
    decide +kernel

end FileSetting

end PhpPrefixer
