import PhpPrefixer.Proofs.References

/-!
# References after the move

When a file has moved, its namespace and its imports have changed, and so has the text of some of its
references. `Relocation.scopeAfter` is the scope a reference is found in afterwards. The main result,
`resolve_moveReference`, says that a reference then denotes the symbol it denoted before, moved if
that symbol moves and the same if it is kept: for every spelling, every kind of symbol, and whether
the namespace moves or stays.
-/

namespace PhpPrefixer

namespace Lexical

variable {scope : Lexical} {kind : SymbolKind} {text : Text}

/-- A well-formed relative name has segments after its first one, which is as long as the mark
without its separator: no character that is longer in lower case occurs in the mark. -/
theorem trimmed_drop_relativeMark (h : Name.WellFormed text)
    (hhead : text.head? ≠ some Name.separator)
    (hmark : relativeMark.isPrefixOf (Text.lower text) = true) :
    Name.trimmed (text.drop relativeMark.length) ≠ [] := by
  let word : Text := "namespace".toList
  obtain ⟨rest, hrest⟩ := List.isPrefixOf_iff_prefix.mp hmark
  have hlower : Text.lower text = word ++ Name.separator :: rest := by
    rw [← hrest]
    rfl
  have hword : Name.segments word = [word] := Text.pieces_of_not_mem (by decide)
  have hsegments : (Name.segments text).map Text.lower = word :: Name.segments rest := by
    rw [← Name.segments_lower, hlower, Name.segments, Text.pieces_append_sep]
    exact congrArg (· ++ Name.segments rest) hword
  obtain ⟨first, others, hsplit, hfirst, hothers⟩ := List.map_eq_cons_iff.mp hsegments
  have hne : others ≠ [] := by
    rintro rfl
    exact Name.segments_ne_nil rest hothers.symm
  have hlength : first.length = word.length := by
    have hi : 'i' ∉ Text.lower first := by
      rw [hfirst]
      decide
    have hlen := Text.length_lowerFrom hi
    rw [← hlen]
    exact congrArg List.length hfirst
  have hmember : ∀ p ∈ others, p ∈ Name.segments text := by
    intro p hp
    rw [hsplit]
    exact List.mem_cons_of_mem first hp
  have htext : text = (first ++ [Name.separator]) ++ Text.glue Name.separator others := by
    obtain ⟨q, qs, rfl⟩ := List.exists_cons_of_ne_nil hne
    rw [← List.append_cons, ← Text.glue_cons_cons, ← hsplit, Name.glue_segments]
  have hdrop : text.drop relativeMark.length = Text.glue Name.separator others := by
    have hmarkLength : relativeMark.length = (first ++ [Name.separator]).length := by
      rw [List.length_append, hlength]
      rfl
    rw [htext, hmarkLength, List.drop_left]
  rw [hdrop]
  apply Name.trimmed_glue_ne_nil hne
  · intro p hp
    exact h p (by rw [Name.bare_of_head hhead]; exact hmember p hp)
  · intro p hp
    exact Text.sep_not_mem_of_mem_pieces (hmember p hp)

end Lexical

namespace Relocation

/-- How a name is found before the move and, if it is not written anew, after it: as it is written,
through the namespace, or through an import. -/
theorem resolve_scopeAfter (r : Relocation) (scope : Lexical) (kind : SymbolKind) (text : Text) :
    let before := scope.resolve kind text
    let after := (r.scopeAfter scope).resolve kind text
    (before.spelling = .fullyQualified ∧ before.imported = false ∧ after.name = before.name
        ∧ text = Name.separator :: before.name)
      ∨ (before.spelling ≠ .fullyQualified ∧ before.imported = false ∧ ∃ part,
        (Name.WellFormed text → Name.trimmed part ≠ [])
          ∧ before.name = Name.join [scope.space, part]
          ∧ after.name = Name.join [(r.scopeAfter scope).space, part])
      ∨ (before.spelling = .unqualified ∧ before.imported = true
        ∧ after.name = r.nameAfter kind before.name)
      ∨ (before.spelling = .qualified ∧ before.imported = true) := by
  intro before after
  by_cases hhead : text.head? = some Name.separator
  · obtain ⟨name, rfl⟩ := List.head?_eq_some_iff.mp hhead
    left
    simp [before, after, Lexical.resolve_fullyQualified]
  · by_cases hmark : Lexical.relativeMark.isPrefixOf (Text.lower text) = true
    · right; left
      rw [show before = _ from Lexical.resolve_relative hhead hmark,
        show after = _ from Lexical.resolve_relative hhead hmark]
      exact ⟨Spelling.noConfusion, rfl, _,
        fun h => Lexical.trimmed_drop_relativeMark h hhead hmark, rfl, rfl⟩
    · have hpart : Name.WellFormed text → Name.trimmed text ≠ [] := by
        intro h
        have htext := h.isTrimmed_bare
        have hne := h.bare_ne_nil
        rw [Name.bare_of_head hhead] at htext hne
        rwa [Name.trimmed_of_isTrimmed htext]
      cases hcut : Text.cut? [Name.separator] text with
      | some parts =>
        rw [show before = _ from Lexical.resolve_qualified hhead hmark hcut,
          show after = _ from Lexical.resolve_qualified hhead hmark hcut, find?_scopeAfter]
        cases scope.imports.find? .classLike parts.1 with
        | some target => exact .inr (.inr (.inr ⟨rfl, rfl⟩))
        | none => exact .inr (.inl ⟨Spelling.noConfusion, rfl, text, hpart, rfl, rfl⟩)
      | none =>
        rw [show before = _ from Lexical.resolve_unqualified hhead hmark hcut,
          show after = _ from Lexical.resolve_unqualified hhead hmark hcut, find?_scopeAfter]
        cases scope.imports.find? kind text with
        | some target => exact .inr (.inr (.inl ⟨rfl, rfl, rfl⟩))
        | none => exact .inr (.inl ⟨Spelling.noConfusion, rfl, text, hpart, rfl, rfl⟩)

/-- A reference that denotes one symbol for certain, and one that is not under the prefix yet. -/
structure IsPlain (r : Relocation) (scope : Lexical) (kind : SymbolKind) (text : Text) : Prop where
  /-- It is a well-formed name. -/
  wellFormed : Name.WellFormed text
  /-- It is no reserved word and no construct of the language. -/
  isReference : isNoReference kind text = false
  /-- No global symbol may be meant instead. -/
  unambiguous : (scope.resolve kind text).ambiguous = false
  /-- It is not qualified by an imported name. -/
  direct : ¬((scope.resolve kind text).spelling = .qualified
    ∧ (scope.resolve kind text).imported = true)
  /-- Its symbol is not under the prefix yet. -/
  unmoved : r.hasMoved (scope.resolve kind text).name = false

section

variable {r : Relocation} {scope : Lexical} {kind : SymbolKind} {text : Text}

/-- A reference to a symbol that is renamed is written anew if it is fully qualified, or if it is found
through a namespace that stays. -/
theorem replacement_of_rename (h : r.IsPlain scope kind text)
    (hne : (scope.resolve kind text).name ≠ [])
    (hrename : r.classifier.classify kind (scope.resolve kind text).name = .rename) :
    (r.reference scope kind text).replacement
      = if (scope.resolve kind text).spelling = .fullyQualified
          ∨ ((scope.resolve kind text).imported = false ∧ scope.moved = false)
        then some (Name.separator :: r.relocate (scope.resolve kind text).name) else none := by
  simp [reference, h.isReference, referenceResolved, h.unambiguous, hne, h.unmoved, hrename]

/-- A reference to a symbol that is kept is written anew if it is found through a namespace that moves. -/
theorem replacement_of_keep (h : r.IsPlain scope kind text)
    (hne : (scope.resolve kind text).name ≠ [])
    (hkeep : r.classifier.classify kind (scope.resolve kind text).name ≠ .rename) :
    (r.reference scope kind text).replacement
      = if (scope.resolve kind text).spelling ≠ .fullyQualified
          ∧ (scope.resolve kind text).imported = false ∧ scope.moved = true
        then some (Name.separator :: (scope.resolve kind text).name) else none := by
  simp only [reference, h.isReference, referenceResolved, h.unambiguous, hne, h.unmoved, hkeep]
  simp [and_assoc, apply_ite ReferenceMove.replacement]

/-- A name without a symbol is left as it is. -/
theorem replacement_of_nil (h : r.IsPlain scope kind text)
    (hnil : (scope.resolve kind text).name = []) :
    (r.reference scope kind text).replacement = none := by
  simp [reference, h.isReference, referenceResolved, hnil]

/-- Only through an import can a well-formed name be found to be empty. -/
theorem IsPlain.name_ne_nil (h : r.IsPlain scope kind text)
    (hlocal : (scope.resolve kind text).imported = false) :
    (scope.resolve kind text).name ≠ [] := by
  rcases r.resolve_scopeAfter scope kind text with
    ⟨-, -, -, htext⟩ | ⟨-, -, part, hpart, hname, -⟩ | ⟨-, himported, -⟩ | ⟨-, himported⟩
  · have hne := h.wellFormed.bare_ne_nil
    rwa [htext, Name.bare_separator_cons] at hne
  · rw [hname, Name.join_pair]
    exact fun hnil => hpart h.wellFormed (Name.beside_eq_nil_iff.mp hnil).2
  · exact absurd (hlocal.symm.trans himported) Bool.false_ne_true
  · exact absurd (hlocal.symm.trans himported) Bool.false_ne_true

/-- A reference to a symbol that moves denotes the moved symbol, whether it is written anew or found
through what has moved around it. -/
theorem resolve_rewritten_of_rename (hroot : Name.IsRoot r.root) (h : r.IsPlain scope kind text)
    (hrename : r.classifier.classify kind (scope.resolve kind text).name = .rename) :
    ((r.scopeAfter scope).resolve kind (r.rewritten scope kind text)).name
      = r.relocate (scope.resolve kind text).name := by
  have hmoves : r.moves kind (scope.resolve kind text).name = true := by
    simp [moves, h.unmoved, Classifier.renames, hrename]
  rcases r.resolve_scopeAfter scope kind text with
    ⟨hspelling, hlocal, -, -⟩ | ⟨hspelling, hlocal, part, -, hname, hafter⟩
      | ⟨hspelling, himported, hafter⟩ | himported
  · have hwritten := replacement_of_rename h (h.name_ne_nil hlocal) hrename
    rw [if_pos (.inl hspelling)] at hwritten
    rw [rewritten, hwritten, Option.getD_some, Lexical.resolve_fullyQualified]
  · have hwritten := replacement_of_rename h (h.name_ne_nil hlocal) hrename
    cases hmoved : scope.moved with
    | false =>
      rw [if_pos (.inr ⟨hlocal, hmoved⟩)] at hwritten
      rw [rewritten, hwritten, Option.getD_some, Lexical.resolve_fullyQualified]
    | true =>
      rw [if_neg (by simp [hspelling, hmoved])] at hwritten
      have hspace : (r.scopeAfter scope).space = r.relocate scope.space := if_pos hmoved
      rw [rewritten, hwritten, Option.getD_none, hafter, hname, hspace]
      exact Name.relocate_join hroot scope.space part
  · have hwritten : (r.reference scope kind text).replacement = none := by
      by_cases hnil : (scope.resolve kind text).name = []
      · exact replacement_of_nil h hnil
      · rw [replacement_of_rename h hnil hrename, if_neg (by simp [hspelling, himported])]
    rw [rewritten, hwritten, Option.getD_none, hafter, nameAfter, if_pos hmoves]
  · exact absurd himported h.direct

/-- A reference to a symbol that is kept denotes the same symbol, pinned where its namespace moves. -/
theorem resolve_rewritten_of_keep (h : r.IsPlain scope kind text)
    (hkeep : r.classifier.classify kind (scope.resolve kind text).name ≠ .rename) :
    ((r.scopeAfter scope).resolve kind (r.rewritten scope kind text)).name
      = (scope.resolve kind text).name := by
  have hmoves : ¬r.moves kind (scope.resolve kind text).name = true := by
    simp [moves, Classifier.renames, hkeep]
  rcases r.resolve_scopeAfter scope kind text with
    ⟨hspelling, hlocal, hafter, -⟩ | ⟨hspelling, hlocal, part, -, hname, hafter⟩
      | ⟨hspelling, himported, hafter⟩ | himported
  · have hwritten := replacement_of_keep h (h.name_ne_nil hlocal) hkeep
    rw [if_neg (by simp [hspelling])] at hwritten
    rw [rewritten, hwritten, Option.getD_none, hafter]
  · have hwritten := replacement_of_keep h (h.name_ne_nil hlocal) hkeep
    cases hmoved : scope.moved with
    | true =>
      rw [if_pos ⟨hspelling, hlocal, hmoved⟩] at hwritten
      rw [rewritten, hwritten, Option.getD_some, Lexical.resolve_fullyQualified]
    | false =>
      rw [if_neg (by simp [hmoved])] at hwritten
      have hspace : (r.scopeAfter scope).space = scope.space :=
        if_neg (by simp [hmoved])
      rw [rewritten, hwritten, Option.getD_none, hafter, hname, hspace]
  · have hwritten : (r.reference scope kind text).replacement = none := by
      by_cases hnil : (scope.resolve kind text).name = []
      · exact replacement_of_nil h hnil
      · rw [replacement_of_keep h hnil hkeep, if_neg (by simp [himported])]
    rw [rewritten, hwritten, Option.getD_none, hafter, nameAfter, if_neg hmoves]
  · exact absurd himported h.direct

end

end Relocation

namespace FileSetting

/-- A plain reference is carried out, and what then stands in its place denotes, in the scope after
the move, the symbol it denoted before: moved if that symbol moves, and the same if it is kept. -/
theorem resolve_moveReference (w : FileSetting) (kind : SymbolKind) (n : Node) (s : FileState)
    {text : Text} (hroot : Prefix.validate (some w.relocation.root) = .ok w.relocation.root)
    (htext : w.source.text? n = some text) (hplain : w.relocation.IsPlain s.scope kind text) :
    ∃ s' written,
      ((w.moveReference kind n).run s).outcome = .ok ((), s')
        ∧ ((s'.edits = s.edits ∧ written = text) ∨ s'.edits = s.edits ++ [.replacing n written])
        ∧ ((w.relocation.scopeAfter s.scope).resolve kind written).name
          = if w.relocation.classifier.classify kind (s.scope.resolve kind text).name = .rename
            then w.relocation.relocate (s.scope.resolve kind text).name
            else (s.scope.resolve kind text).name := by
  let decided := w.relocation.reference s.scope kind text
  refine ⟨w.stateAfter kind n decided s, w.relocation.rewritten s.scope kind text,
    outcome_moveReference kind s htext, ?_, ?_⟩
  · rw [edits_stateAfter, Relocation.rewritten]
    cases decided.replacement with
    | none => exact .inl ⟨List.append_nil s.edits, rfl⟩
    | some written => exact .inr rfl
  · split
    · next hrename =>
      exact Relocation.resolve_rewritten_of_rename (Name.isRoot_of_validate hroot) hplain hrename
    · next hkeep => exact Relocation.resolve_rewritten_of_keep hplain hkeep

/-- A name relative to a namespace that stays, which has to be written anew. -/
theorem resolve_moveReference_relative :
    let text : Text := "namespace\\Model".toList
    let w : FileSetting :=
      { path := "a.php".toList, relocation := ⟨"Humbug".toList, ⟨.empty, .empty⟩⟩, policy := .skip,
        warnDynamic := false, source := .ofText text }
    let n : Node := .mk "relative_name" true false ⟨0, 15⟩ none []
    let s : FileState := ⟨.entered "App".toList false, [], []⟩
    w.source.text? n = some text ∧ w.relocation.IsPlain s.scope .classLike text
      ∧ ∃ s' written,
        ((w.moveReference .classLike n).run s).outcome = .ok ((), s')
          ∧ ((s'.edits = [] ∧ written = text) ∨ s'.edits = [.replacing n written])
          ∧ ((w.relocation.scopeAfter s.scope).resolve .classLike written).name
            = "Humbug\\App\\Model".toList := by
  intro text w n s
  have htext : w.source.text? n = some text := by decide +kernel
  have hplain : w.relocation.IsPlain s.scope .classLike text :=
    ⟨by decide +kernel, by decide +kernel, by decide +kernel, by decide +kernel, by decide +kernel⟩
  exact ⟨htext, hplain, resolve_moveReference w .classLike n s (by decide +kernel) htext hplain⟩

end FileSetting

end PhpPrefixer
