import PhpPrefixer.Prefixing.Imports
import PhpPrefixer.Proofs.References
import PhpPrefixer.Proofs.Texts

/-!
# Names qualified by an import

A name whose first segment is imported is found through the import, and it is never written anew:
when the import moves, the symbol is looked for under the prefix, and else where it was. The import is
decided as a class, by its own name. The symbol behind it has a longer name and often another kind,
and it may be decided otherwise. `FileSetting.resolve_through_import` says what the name denotes
afterwards, and that this is the right symbol if and only if both are decided alike.
-/

namespace PhpPrefixer

namespace Lexical

/-- The first segment of a name is imported, and stands for another name. -/
structure GoesThrough (scope : Lexical) (first target : Text) : Prop where
  /-- It is one segment. -/
  isShort : Name.IsShort first
  /-- It is not the word that makes a name relative. -/
  notRelative : Text.lower first ≠ "namespace".toList
  /-- It is imported. -/
  imported : scope.imports.find? .classLike first = some target

variable {scope : Lexical} {first target : Text}

/-- A name that goes through an import does not start with the mark of a relative name. -/
theorem GoesThrough.not_relativeMark (h : scope.GoesThrough first target) (rest : Text) :
    ¬relativeMark.isPrefixOf (Text.lower (first ++ Name.separator :: rest)) = true := by
  intro hmark
  obtain ⟨tail, htail⟩ := List.isPrefixOf_iff_prefix.mp hmark
  rw [Text.lower_append_separator] at htail
  have hsegments : Name.segments ("namespace".toList ++ Name.separator :: tail)
      = Name.segments (Text.lower first ++ Name.separator :: Text.lower rest) :=
    congrArg Name.segments htail
  have hword : Name.segments "namespace".toList = ["namespace".toList] :=
    Text.pieces_of_not_mem (by decide)
  have hfirst : Name.segments (Text.lower first) = [Text.lower first] :=
    Text.pieces_of_not_mem (Text.separator_not_mem_lower h.isShort.separator_not_mem)
  have hleft : Name.segments ("namespace".toList ++ Name.separator :: tail)
      = "namespace".toList :: Name.segments tail := by
    rw [Name.segments, Text.pieces_append_sep]
    exact congrArg (· ++ Name.segments tail) hword
  have hright : Name.segments (Text.lower first ++ Name.separator :: Text.lower rest)
      = Text.lower first :: Name.segments (Text.lower rest) := by
    rw [Name.segments, Text.pieces_append_sep]
    exact congrArg (· ++ Name.segments (Text.lower rest)) hfirst
  rw [hleft, hright] at hsegments
  exact h.notRelative (List.cons_eq_cons.mp hsegments).1.symm

/-- What a name denotes whose first segment is imported. -/
theorem GoesThrough.resolve_eq (h : scope.GoesThrough first target) (kind : SymbolKind)
    (rest : Text) :
    scope.resolve kind (first ++ Name.separator :: rest)
      = { name := Name.join [target, rest], spelling := .qualified, imported := true } := by
  have hhead : (first ++ Name.separator :: rest).head? ≠ some Name.separator := by
    obtain ⟨c, cs, rfl⟩ := List.exists_cons_of_ne_nil h.isShort.ne_nil
    exact h.isShort.isTrimmed.1
  rw [resolve_qualified hhead (h.not_relativeMark rest)
    (Text.cut?_of_not_mem h.isShort.separator_not_mem rest), h.imported]

/-- After the move the segment stands for the target of the import as it then is. -/
theorem GoesThrough.scopeAfter (h : scope.GoesThrough first target) (r : Relocation) :
    (r.scopeAfter scope).GoesThrough first (r.nameAfter .classLike target) := by
  refine ⟨h.isShort, h.notRelative, ?_⟩
  rw [r.find?_scopeAfter, h.imported, Option.map_some]

end Lexical

namespace Relocation

variable {r : Relocation} {scope : Lexical} {first target : Text}

/-- A name whose first segment is imported is not written anew. -/
theorem replacement_of_goesThrough (h : scope.GoesThrough first target) (kind : SymbolKind)
    (rest : Text) :
    (r.reference scope kind (first ++ Name.separator :: rest)).replacement = none := by
  unfold reference
  split
  · rfl
  · rw [h.resolve_eq, referenceResolved]
    split
    · rfl
    · split
      · rfl
      · rfl

/-- A name that goes through an import stays as it is written. -/
theorem rewritten_of_goesThrough (h : scope.GoesThrough first target) (kind : SymbolKind)
    (rest : Text) :
    r.rewritten scope kind (first ++ Name.separator :: rest) = first ++ Name.separator :: rest := by
  rw [rewritten, replacement_of_goesThrough h, Option.getD_none]

/-- What is found afterwards behind an import: the symbol under the prefix if the import moves, and
the symbol itself if the import stays. -/
theorem resolve_rewritten_of_goesThrough (hroot : Name.IsRoot r.root)
    (h : scope.GoesThrough first target) (hunmoved : r.hasMoved target = false)
    (kind : SymbolKind) (rest : Text) :
    ((r.scopeAfter scope).resolve kind
        (r.rewritten scope kind (first ++ Name.separator :: rest))).name
      = if r.classifier.classify .classLike target = .rename
        then r.relocate (Name.join [target, rest]) else Name.join [target, rest] := by
  have hmoves : r.moves .classLike target
      = decide (r.classifier.classify .classLike target = .rename) := by
    rw [moves, hunmoved, Bool.not_false, Bool.true_and, Classifier.renames]
  rw [rewritten_of_goesThrough h, (h.scopeAfter r).resolve_eq, nameAfter, hmoves]
  split
  · next hrename =>
    rw [if_pos (of_decide_eq_true hrename)]
    exact Name.relocate_join hroot target rest
  · next hkeep => rw [if_neg (fun hrename => hkeep (decide_eq_true hrename))]

/-- The edit that moves the target of an import where it is written, if the import moves. -/
def importEdits (r : Relocation) (i : Import) : List Edit :=
  if r.classifier.classify i.kind i.name = .rename then
    [.replacing i.node ((if i.leading then [Name.separator] else []) ++ r.relocate i.name)]
  else []

end Relocation

/-- A local name that was put into a table is found there. -/
theorem Imports.find?_put (table : List (Text × Text)) (key target : Text) :
    (put table key target).find? (fun entry => entry.1 = key) = some (key, target) := by
  have hnone : (table.filter fun entry => entry.1 ≠ key).find? (fun entry => entry.1 = key)
      = none := by
    simp only [List.find?_eq_none, List.mem_filter, decide_eq_true_eq]
    exact fun entry hentry => hentry.2
  rw [put, List.find?_append, hnone]
  simp

/-- The last import under a local name is the one that is found. -/
theorem Imports.find?_add (imports : Imports) {kind : SymbolKind} (hkind : kind ≠ .nameSpace)
    (localName target : Text) :
    (imports.add kind localName target).find? kind localName = some target := by
  cases kind with
  | nameSpace => exact absurd rfl hkind
  | classLike => simp only [add, find?, table, find?_put, Option.map_some]
  | function => simp only [add, find?, table, find?_put, Option.map_some]
  | constant => simp only [add, find?, table, find?_put, Option.map_some]

/-- An import is carried out without fail: its target is moved where it is written, if it is renamed,
and its local name stands for the target. -/
theorem Prefixing.outcome_moveAll_singleton {w : FileSetting} {i : Import}
    (hunmoved : w.relocation.hasMoved i.name = false) (s : FileState) :
    ∃ s', ((moveAll w [i]).run s).outcome = .ok ((), s')
      ∧ s'.scope = s.scope.importing i.kind i.localName i.name
      ∧ s'.edits = s.edits ++ w.relocation.importEdits i := by
  have hmoves : w.relocation.movesImport i
      = decide (w.relocation.classifier.classify i.kind i.name = .rename) := by
    rw [Relocation.movesImport, Relocation.moves, hunmoved, Bool.not_false, Bool.true_and,
      Classifier.renames]
  by_cases hrename : w.relocation.classifier.classify i.kind i.name = .rename
  · refine ⟨_, by simp only [moveAll, adopt, hmoves, hrename]; rfl, ?_, ?_⟩
    · simp [FileState.withRename, apply_ite FileState.scope]
    · simp [Relocation.importEdits, hrename, FileSetting.withRename_edits]
  · refine ⟨_, by simp only [moveAll, adopt, hmoves, hrename]; rfl, rfl, ?_⟩
    simp [Relocation.importEdits, hrename]

namespace FileSetting

/-- A class or namespace is imported, and a name is qualified by its local name. Both are carried
out, and the name is left as it is written. If the import is renamed, the name denotes the symbol
under the prefix afterwards; if the import is kept, it denotes the symbol itself. So it denotes what
becomes of the symbol if and only if the import and the symbol are decided alike. -/
theorem resolve_through_import (w : FileSetting) {i : Import} (s : FileState)
    (hroot : Prefix.validate (some w.relocation.root) = .ok w.relocation.root)
    (hkind : i.kind = .classLike) (hunmoved : w.relocation.hasMoved i.name = false)
    (kind : SymbolKind) {n : Node} {first rest : Text} (t : FileState)
    (hfirst : t.scope.GoesThrough first i.name)
    (htext : w.source.text? n = some (first ++ Name.separator :: rest)) :
    ∃ s' t',
      ((Prefixing.moveAll w [i]).run s).outcome = .ok ((), s')
        ∧ s'.scope.imports.find? .classLike i.localName = some i.name
        ∧ s'.edits = s.edits ++ w.relocation.importEdits i
        ∧ ((w.moveReference kind n).run t).outcome = .ok ((), t')
        ∧ t'.edits = t.edits
        ∧ let name := Name.join [i.name, rest]
          let found :=
            ((w.relocation.scopeAfter t.scope).resolve kind (first ++ Name.separator :: rest)).name
          found = (if w.relocation.classifier.classify .classLike i.name = .rename
              then w.relocation.relocate name else name)
            ∧ (found = (if w.relocation.classifier.classify kind name = .rename
                then w.relocation.relocate name else name)
              ↔ (w.relocation.classifier.classify .classLike i.name = .rename
                ↔ w.relocation.classifier.classify kind name = .rename)) := by
  have hrootOf := Name.isRoot_of_validate hroot
  obtain ⟨s', hrun, hscope, hedits⟩ := Prefixing.outcome_moveAll_singleton hunmoved s
  have hfound := Relocation.resolve_rewritten_of_goesThrough hrootOf hfirst hunmoved kind rest
  rw [Relocation.rewritten_of_goesThrough hfirst] at hfound
  have hne := Relocation.relocate_ne_self hrootOf (Name.isTrimmed_join [i.name, rest])
  refine ⟨s', w.stateAfter kind n _ t, hrun, ?_, hedits, outcome_moveReference kind t htext, ?_,
    hfound, ?_⟩
  · rw [hscope, hkind]
    exact Imports.find?_add s.scope.imports SymbolKind.noConfusion i.localName i.name
  · rw [edits_stateAfter, Relocation.replacement_of_goesThrough hfirst]
    exact List.append_nil t.edits
  · rw [hfound]
    by_cases himport : w.relocation.classifier.classify .classLike i.name = .rename
    · by_cases hname : w.relocation.classifier.classify kind (Name.join [i.name, rest]) = .rename
      · simp only [himport, hname]
      · simp [himport, hname, hne]
    · by_cases hname : w.relocation.classifier.classify kind (Name.join [i.name, rest]) = .rename
      · simp [himport, hname, hne.symm]
      · simp only [himport, hname]

/-- An import of a namespace under another name. -/
def sdkImport : Import :=
  { node := .mk "qualified_name" true false ⟨4, 12⟩ none [], name := "Acme\\Sdk".toList,
    kind := .classLike, given := some "Kit".toList, leading := false }

/-- A file in which a name is qualified by it. -/
def sdkFile (whitelist : Whitelist) : FileSetting :=
  { path := "a.php".toList, relocation := ⟨"Humbug".toList, ⟨.empty, whitelist⟩⟩, policy := .skip,
    warnDynamic := false, source := .ofText "kit\\Http\\send".toList }

/-- The state in which the name is reached. -/
def sdkState : FileState :=
  ⟨(Lexical.entered "App".toList true).importing .classLike "Kit".toList "Acme\\Sdk".toList, [], []⟩

/-- The node of the name. -/
def sdkReference : Node := .mk "qualified_name" true false ⟨0, 13⟩ none []

/-- A function behind the import of a namespace: another kind than that of the import, and another
letter case than that of its local name. No rule concerns either, and the function is found under the
prefix. -/
theorem resolve_through_import_function :
    let w := sdkFile { Whitelist.empty with excludedNamespaces := ["vendor".toList] }
    sdkState.scope.GoesThrough "kit".toList sdkImport.name
      ∧ ∃ s' t',
        ((Prefixing.moveAll w [sdkImport]).run .start).outcome = .ok ((), s')
          ∧ s'.edits = [.replacing sdkImport.node "Humbug\\Acme\\Sdk".toList]
          ∧ ((w.moveReference .function sdkReference).run sdkState).outcome = .ok ((), t')
          ∧ t'.edits = []
          ∧ ((w.relocation.scopeAfter sdkState.scope).resolve .function
              "kit\\Http\\send".toList).name
            = "Humbug\\Acme\\Sdk\\Http\\send".toList := by
  intro w
  have hfirst : sdkState.scope.GoesThrough "kit".toList sdkImport.name :=
    ⟨⟨by decide, by decide⟩, by decide +kernel, by decide +kernel⟩
  have htext : w.source.text? sdkReference
      = some ("kit".toList ++ Name.separator :: "Http\\send".toList) := by decide +kernel
  obtain ⟨s', t', himport, -, hedits, hreference, hkept, hfound, -⟩ :=
    resolve_through_import w .start (by decide +kernel) rfl (by decide +kernel) .function sdkState
      hfirst htext
  refine ⟨hfirst, s', t', himport, ?_, hreference, hkept, ?_⟩
  · rw [hedits]
    decide +kernel
  · exact hfound.trans (by decide +kernel)

/-- The namespace behind an import is excluded. The import is decided as a class of the namespace
above, and moves; the function is kept, and is not found where it is any more. -/
theorem resolve_through_import_lost :
    let w := sdkFile { Whitelist.empty with excludedNamespaces := ["acme\\sdk".toList] }
    let name : Text := "Acme\\Sdk\\Http\\send".toList
    (sdkState.scope.resolve .function "kit\\Http\\send".toList).name = name
      ∧ w.relocation.hasMoved sdkImport.name = false ∧ w.relocation.hasMoved name = false
      ∧ w.relocation.classifier.classify .function name = .keepWhitelisted
      ∧ w.relocation.rewritten sdkState.scope .function "kit\\Http\\send".toList
        = "kit\\Http\\send".toList
      ∧ ((w.relocation.scopeAfter sdkState.scope).resolve .function
          "kit\\Http\\send".toList).name ≠ name := by
  decide +kernel

end FileSetting

end PhpPrefixer
