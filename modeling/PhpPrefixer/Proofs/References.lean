import PhpPrefixer.Prefixing.Namespaces
import PhpPrefixer.Proofs.NameAlgebra

/-!
# References

How a name that is written in a file is found in the scope it stands in (`Lexical.resolve`), spelling by
spelling, and what is written in its place (`Relocation.replacement_cases`). When a file has moved, its
namespace and its imports have changed: `Relocation.scopeAfter` is the scope a reference is found in
afterwards. References and namespace declarations whose text can be read are carried out without fail
(`FileSetting.outcome_moveReference`, `Prefixing.outcome_enterDeclaration`).
-/

namespace PhpPrefixer

namespace Lexical

variable {scope : Lexical} {kind : SymbolKind} {text : Text}

/-- A fully qualified name is found as it is written. -/
theorem resolve_fullyQualified (scope : Lexical) (kind : SymbolKind) (name : Text) :
    scope.resolve kind (Name.separator :: name) = { name, spelling := .fullyQualified } := by
  simp [resolve]

/-- A relative name is found below the namespace. -/
theorem resolve_relative (hhead : text.head? ≠ some Name.separator)
    (hmark : relativeMark.isPrefixOf (Text.lower text) = true) :
    scope.resolve kind text
      = { name := Name.join [scope.space, text.drop relativeMark.length], spelling := .relative } := by
  rw [resolve, if_neg hhead, if_pos hmark]

/-- A qualified name is found through the import of its first segment, or else below the namespace. -/
theorem resolve_qualified {first rest : Text} (hhead : text.head? ≠ some Name.separator)
    (hmark : ¬relativeMark.isPrefixOf (Text.lower text) = true)
    (hcut : Text.cut? [Name.separator] text = some (first, rest)) :
    scope.resolve kind text
      = match scope.imports.find? .classLike first with
        | some target =>
          { name := Name.join [target, rest], spelling := .qualified, imported := true }
        | none => { name := Name.join [scope.space, text], spelling := .qualified } := by
  rewrite [resolve, if_neg hhead, if_neg hmark, hcut]
  rfl

/-- An unqualified name is found through the import of its kind, or else below the namespace; a function or
a constant may then be a global one as well. -/
theorem resolve_unqualified (hhead : text.head? ≠ some Name.separator)
    (hmark : ¬relativeMark.isPrefixOf (Text.lower text) = true)
    (hcut : Text.cut? [Name.separator] text = none) :
    scope.resolve kind text
      = match scope.imports.find? kind text with
        | some target => { name := target, spelling := .unqualified, imported := true }
        | none =>
          { name := Name.join [scope.space, text], spelling := .unqualified,
            ambiguous := kind ≠ .classLike && scope.space ≠ [] } := by
  rewrite [resolve, if_neg hhead, if_neg hmark, hcut]
  rfl

end Lexical

namespace Relocation

/-- What a symbol of some kind is called after the move. -/
def nameAfter (r : Relocation) (kind : SymbolKind) (name : Text) : Text :=
  if r.moves kind name then r.relocate name else name

/-- A table of imports after the move. -/
def tableAfter (r : Relocation) (kind : SymbolKind) (table : List (Text × Text)) :
    List (Text × Text) :=
  table.map fun entry => (entry.1, r.nameAfter kind entry.2)

/-- The scope after the move: a namespace that moves is under the prefix, and so is every import of a
symbol that moves. -/
def scopeAfter (r : Relocation) (scope : Lexical) : Lexical where
  space := if scope.moved then r.relocate scope.space else scope.space
  moved := scope.moved
  imports :=
    { classes := r.tableAfter .classLike scope.imports.classes
      functions := r.tableAfter .function scope.imports.functions
      constants := r.tableAfter .constant scope.imports.constants }

/-- What stands in place of a reference after the move. -/
def rewritten (r : Relocation) (scope : Lexical) (kind : SymbolKind) (text : Text) : Text :=
  (r.reference scope kind text).replacement.getD text

/-- After the move, each table of imports is the one before it with its targets moved. -/
theorem table_scopeAfter (r : Relocation) (scope : Lexical) (kind : SymbolKind) :
    (r.scopeAfter scope).imports.table kind = r.tableAfter kind (scope.imports.table kind) := by
  cases kind <;> rfl

/-- The same local names are imported after the move. -/
theorem find?_scopeAfter (r : Relocation) (scope : Lexical) (kind : SymbolKind) (localName : Text) :
    (r.scopeAfter scope).imports.find? kind localName
      = (scope.imports.find? kind localName).map (r.nameAfter kind) := by
  simp [Imports.find?, table_scopeAfter, tableAfter, List.find?_map, Function.comp_def]

/-- A name that was moved has no separator in front. -/
theorem bare_relocate (r : Relocation) (name : Text) :
    Name.bare (r.relocate name) = r.relocate name :=
  Name.bare_of_isTrimmed (Name.isTrimmed_relocate _ _)

/-- What is written in place of the name of an import reads as the name under the prefix. -/
theorem join_written (r : Relocation) (leading : Bool) (name : Text) :
    Name.join [[], Name.bare ((if leading then [Name.separator] else []) ++ r.relocate name)]
      = r.relocate name := by
  have htrimmed : Name.trimmed (r.relocate name) = r.relocate name :=
    Name.trimmed_of_isTrimmed (Name.isTrimmed_relocate _ _)
  rw [Name.join_nil_left, Name.trimmed_bare]
  cases leading with
  | true => rw [if_pos rfl, List.singleton_append, Name.trimmed_separator_cons, htrimmed]
  | false => exact htrimmed

/-- What is written in place of a reference: the symbol under the prefix, and then it is recorded, or
a symbol that is kept. -/
theorem replacement_cases {r : Relocation} {scope : Lexical} {kind : SymbolKind}
    {text written : Text} (h : (r.reference scope kind text).replacement = some written) :
    let name := (scope.resolve kind text).name
    (written = Name.separator :: r.relocate name
        ∧ (r.reference scope kind text).rename = some (name, r.relocate name))
      ∨ (written = Name.separator :: name ∧ r.hasMoved name = false
        ∧ r.classifier.classify kind name ≠ .rename) := by
  intro name
  unfold reference at h ⊢
  split at h
  · cases h
  · next href =>
    rw [if_neg href]
    unfold referenceResolved at h ⊢
    split at h
    · cases h
    · next hsome =>
      rw [if_neg hsome]
      simp only [Bool.or_eq_true, not_or, Bool.not_eq_true] at hsome
      split at h
      · next hrename =>
        rw [if_pos hrename]
        dsimp only at h
        split at h
        · cases h
          exact .inl ⟨rfl, rfl⟩
        · cases h
      · next hkeep =>
        split at h
        · cases h
          exact .inr ⟨rfl, hsome.2, hkeep⟩
        · cases h

end Relocation

namespace FileSetting

/-- What a file has after something is decided about a reference at a node. -/
def stateAfter (w : FileSetting) (kind : SymbolKind) (n : Node) (decided : ReferenceMove)
    (s : FileState) : FileState :=
  let edited := { s with edits := s.edits ++ decided.replacement.toList.map (Edit.replacing n) }
  match decided.rename with
  | some (name, target) => edited.withRename ⟨name, target, kind, some w.path⟩
  | none => edited

/-- Keeping a rename in mind queues no edit. -/
theorem withRename_edits (s : FileState) (r : Rename) : (s.withRename r).edits = s.edits := by
  unfold FileState.withRename
  split <;> rfl

/-- What is decided about a reference queues an edit if the reference is written anew, and none otherwise.
-/
theorem edits_stateAfter (w : FileSetting) (kind : SymbolKind) (n : Node) (decided : ReferenceMove)
    (s : FileState) :
    (w.stateAfter kind n decided s).edits
      = s.edits ++ decided.replacement.toList.map (Edit.replacing n) := by
  unfold stateAfter
  cases decided.rename with
  | none => rfl
  | some names => exact withRename_edits _ _

/-- What stands in place of a reference after it is carried out. -/
theorem edits_stateAfter_rewritten (w : FileSetting) (kind : SymbolKind) (n : Node)
    (text : Text) (s : FileState) :
    let s' := w.stateAfter kind n (w.relocation.reference s.scope kind text) s
    let written := w.relocation.rewritten s.scope kind text
    (s'.edits = s.edits ∧ written = text) ∨ s'.edits = s.edits ++ [.replacing n written] := by
  intro s' written
  simp only [s', written, edits_stateAfter, Relocation.rewritten]
  cases (w.relocation.reference s.scope kind text).replacement with
  | none => exact .inl ⟨List.append_nil s.edits, rfl⟩
  | some replacement => exact .inr rfl

/-- A reference that can be read is carried out without fail. -/
theorem outcome_moveReference {w : FileSetting} {n : Node} {text : Text} (kind : SymbolKind)
    (s : FileState) (htext : w.source.text? n = some text) :
    ((w.moveReference kind n).run s).outcome
      = .ok ((), w.stateAfter kind n (w.relocation.reference s.scope kind text) s) := by
  have hread : w.textOf n = pure text := by
    rw [textOf, htext]
  rw [moveReference, hread, pure_bind]
  simp only [StateT.run_bind, StateT.run_get, pure_bind, stateAfter]
  cases (w.relocation.reference s.scope kind text).replacement with
  | none =>
    simp only [Option.toList_none, List.map_nil, List.append_nil]
    cases (w.relocation.reference s.scope kind text).rename with
    | none => rfl
    | some names => rfl
  | some written =>
    cases (w.relocation.reference s.scope kind text).rename with
    | none => rfl
    | some names => rfl

end FileSetting

/-- A namespace declaration whose name can be read is carried out without fail. The namespace is
written under the prefix if it moves, and left alone if it does not. -/
theorem Prefixing.outcome_enterDeclaration {w : FileSetting} {n nameNode : Node} {space : Text}
    (hname : n.child? "name" = some nameNode) (htext : w.source.text? nameNode = some space)
    (s : FileState) :
    ∃ s', ((enterDeclaration w n).run s).outcome = .ok ((), s')
      ∧ s'.scope = .entered (Name.bare space) (w.relocation.moves .nameSpace (Name.bare space))
      ∧ s'.edits = s.edits ++
        if w.relocation.moves .nameSpace (Name.bare space)
        then [.replacing nameNode (w.relocation.relocate (Name.bare space))] else [] := by
  have hread : w.textOf nameNode = pure space := by
    rw [FileSetting.textOf, htext]
  rw [enterDeclaration, hname]
  simp only [hread, pure_bind]
  cases hmoved : w.relocation.hasMoved (Name.bare space) with
  | true => exact ⟨_, rfl, by simp [Relocation.moves, hmoved], by simp [Relocation.moves, hmoved]⟩
  | false =>
    by_cases hclass : w.relocation.classifier.classify .nameSpace (Name.bare space) = .rename
    · refine ⟨_, by simp only [hclass]; rfl, ?_, ?_⟩
      · simp [Relocation.moves, hmoved, Classifier.renames, hclass]
      · simp [Relocation.moves, hmoved, Classifier.renames, hclass, FileSetting.withRename_edits]
    · have hkeeps : (w.relocation.classifier.classify .nameSpace (Name.bare space)).keeps = true := by
        simp [Classification.keeps, hclass]
      refine ⟨_, by simp only [hkeeps]; rfl, ?_, ?_⟩
      · simp [Relocation.moves, hmoved, Classifier.renames, hclass]
      · simp [Relocation.moves, hmoved, Classifier.renames, hclass]

/-- Moving a name changes it. -/
theorem Relocation.relocate_ne_self {r : Relocation} (hroot : Name.IsRoot r.root) {name : Text}
    (h : Name.IsTrimmed name) : r.relocate name ≠ name := by
  intro heq
  rw [relocate, Name.relocate_eq_beside hroot, Name.trimmed_of_isTrimmed h] at heq
  by_cases hnil : name = []
  · rw [hnil, Name.beside_nil] at heq
    exact hroot.ne_nil heq
  · rw [Name.beside_of_ne_nil hroot.ne_nil hnil] at heq
    have hlength := congrArg List.length heq
    simp only [List.length_append, List.length_cons] at hlength
    omega

end PhpPrefixer
