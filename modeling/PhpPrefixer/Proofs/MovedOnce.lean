import PhpPrefixer.Proofs.PlanRuns
import PhpPrefixer.Proofs.References
import PhpPrefixer.Proofs.Renames
import PhpPrefixer.Proofs.Texts

/-!
# What was moved does not move again

What was written under the prefix is recognised as being there, and what was pinned is kept once more.
Between two runs the namespace and the imports have changed, so a name may be found in another way than
before: `Relocation.scopeAgain` is the scope in which the second run finds it, and
`Relocation.replacement_rewritten` says that it is left as it is. `Relocation.mention?_spelled` says the
same of a name in a string.
-/

namespace PhpPrefixer

namespace Relocation

variable {r : Relocation} {scope : Lexical} {kind : SymbolKind} {text : Text}

/-- A name that was moved is under the prefix. -/
theorem hasMoved_relocate (hroot : Name.IsRoot r.root) (name : Text) :
    r.hasMoved (r.relocate name) = true :=
  Name.isUnder_relocate hroot name

/-- What is under the prefix does not move again. -/
theorem moves_of_hasMoved {name : Text} (h : r.hasMoved name = true) (kind : SymbolKind) :
    r.moves kind name = false := by
  rw [moves, h]
  rfl

/-- What a symbol is called after the move does not move. -/
theorem moves_nameAfter (hroot : Name.IsRoot r.root) (kind : SymbolKind) (name : Text) :
    r.moves kind (r.nameAfter kind name) = false := by
  unfold nameAfter
  split
  · exact moves_of_hasMoved (hasMoved_relocate hroot name) kind
  · next hstays => exact Bool.eq_false_iff.mpr hstays

/-- The scope in which a second run finds a name: that after the move, in a namespace that does not move
again. -/
def scopeAgain (r : Relocation) (scope : Lexical) : Lexical :=
  { r.scopeAfter scope with moved := false }

/-- How a name is found by the second run, if it was not written anew: as it is written, through an
import, or through the namespace as it then is. -/
theorem resolve_scopeAgain (r : Relocation) (scope : Lexical) (kind : SymbolKind) (text : Text) :
    let before := scope.resolve kind text
    let again := (r.scopeAgain scope).resolve kind text
    (before.spelling = .fullyQualified ∧ again = before)
      ∨ (again.spelling ≠ .fullyQualified ∧ again.imported = true)
      ∨ ((scope.moved = true → ∃ part, again.name = Name.join [r.relocate scope.space, part])
        ∧ (scope.moved = false → again = before)) := by
  intro before again
  have hspace : scope.moved = true → (r.scopeAgain scope).space = r.relocate scope.space :=
    fun hmoved => if_pos hmoved
  have hsame : scope.moved = false → (r.scopeAgain scope).space = scope.space :=
    fun hmoved => if_neg (by simp [hmoved])
  have hfind : ∀ kind name, (r.scopeAgain scope).imports.find? kind name
      = (scope.imports.find? kind name).map (r.nameAfter kind) := r.find?_scopeAfter scope
  by_cases hhead : text.head? = some Name.separator
  · obtain ⟨name, rfl⟩ := List.head?_eq_some_iff.mp hhead
    left
    simp [before, again, Lexical.resolve_fullyQualified]
  · by_cases hmark : Lexical.relativeMark.isPrefixOf (Text.lower text) = true
    · right; right
      rw [show before = _ from Lexical.resolve_relative hhead hmark,
        show again = _ from Lexical.resolve_relative hhead hmark]
      exact ⟨fun hmoved => ⟨_, by rw [hspace hmoved]⟩, fun hmoved => by rw [hsame hmoved]⟩
    · cases hcut : Text.cut? [Name.separator] text with
      | some parts =>
        rw [show before = _ from Lexical.resolve_qualified hhead hmark hcut,
          show again = _ from Lexical.resolve_qualified hhead hmark hcut, hfind]
        cases scope.imports.find? .classLike parts.1 with
        | some target => exact .inr (.inl ⟨Spelling.noConfusion, rfl⟩)
        | none =>
          refine .inr (.inr ⟨fun hmoved => ⟨text, ?_⟩, fun hmoved => ?_⟩)
          · rw [← hspace hmoved]
            rfl
          · rw [hsame hmoved]
            rfl
      | none =>
        rw [show before = _ from Lexical.resolve_unqualified hhead hmark hcut,
          show again = _ from Lexical.resolve_unqualified hhead hmark hcut, hfind]
        cases scope.imports.find? kind text with
        | some target => exact .inr (.inl ⟨Spelling.noConfusion, rfl⟩)
        | none =>
          refine .inr (.inr ⟨fun hmoved => ⟨text, ?_⟩, fun hmoved => ?_⟩)
          · rw [← hspace hmoved]
            rfl
          · rw [hsame hmoved]
            rfl

/-- Nothing is written in place of a name that is under the prefix. -/
theorem replacement_of_hasMoved {moved : Bool} {n : Resolved} (h : r.hasMoved n.name = true) :
    (r.referenceResolved moved kind n).replacement = none := by
  simp [referenceResolved, h]

/-- Nothing is written in place of a name that is found through an import. -/
theorem replacement_of_imported {moved : Bool} {n : Resolved} (hspelling : n.spelling ≠ .fullyQualified)
    (himported : n.imported = true) : (r.referenceResolved moved kind n).replacement = none := by
  unfold referenceResolved
  split
  · rfl
  split
  · simp [hspelling, himported]
  · simp [himported]

/-- What is decided about a fully qualified name does not depend on the namespace around it. -/
theorem referenceResolved_fullyQualified {n : Resolved} (h : n.spelling = .fullyQualified)
    (moved : Bool) : r.referenceResolved moved kind n = r.referenceResolved false kind n := by
  simp [referenceResolved, h]

/-- Nothing is written in place of a fully qualified name that is kept. -/
theorem replacement_of_kept {moved : Bool} {n : Resolved} (hspelling : n.spelling = .fullyQualified)
    (hkept : r.classifier.classify kind n.name ≠ .rename) :
    (r.referenceResolved moved kind n).replacement = none := by
  unfold referenceResolved
  split
  · rfl
  · rw [if_neg (by simp [hspelling])]

/-- The second run writes nothing in place of a reference. -/
theorem replacement_rewritten (hroot : Name.IsRoot r.root) (scope : Lexical) (kind : SymbolKind)
    (text : Text) :
    (r.reference (r.scopeAgain scope) kind (r.rewritten scope kind text)).replacement = none := by
  rw [reference]
  split
  · rfl
  · next href =>
    cases hwritten : (r.reference scope kind text).replacement with
    | some written =>
      rw [rewritten, hwritten, Option.getD_some]
      obtain ⟨rfl, -⟩ | ⟨rfl, -, hkept⟩ := replacement_cases hwritten
      · rw [Lexical.resolve_fullyQualified]
        exact replacement_of_hasMoved (hasMoved_relocate hroot _)
      · rw [Lexical.resolve_fullyQualified]
        exact replacement_of_kept rfl hkept
    | none =>
      rw [rewritten, hwritten, Option.getD_none] at href ⊢
      rw [reference, if_neg href] at hwritten
      obtain ⟨hspelling, hagain⟩ | ⟨hspelling, himported⟩ | ⟨hmoves, hstays⟩ :=
        r.resolve_scopeAgain scope kind text
      · rw [hagain, show (r.scopeAgain scope).moved = false from rfl,
          ← referenceResolved_fullyQualified hspelling scope.moved]
        exact hwritten
      · exact replacement_of_imported hspelling himported
      · cases hmoved : scope.moved with
        | true =>
          obtain ⟨part, hname⟩ := hmoves hmoved
          apply replacement_of_hasMoved
          rw [hname, relocate, Name.relocate_join hroot]
          exact hasMoved_relocate hroot _
        | false =>
          rw [hstays hmoved]
          rw [hmoved] at hwritten
          exact hwritten

end Relocation

namespace Name

/-- A character that is no part of an identifier occurs in no name, separators and a line break apart. -/
theorem not_mem_of_isSymbolName {c : Char} {t : Text} (hpart : isIdentifierPart c = false)
    (hsep : c ≠ separator) (hbreak : c ≠ '\n') (h : isSymbolName t = true) : c ∉ t := by
  have hidentifier : ∀ p, isIdentifier p = true → c ∉ p := by
    intro p hp hmem
    cases p with
    | nil => cases hmem
    | cons d ds =>
      simp only [isIdentifier, Bool.and_eq_true] at hp
      have hds : ∀ e ∈ d :: ds, isIdentifierPart e = true := by
        refine List.forall_mem_cons.mpr ⟨?_, List.all_eq_true.mp hp.2⟩
        rw [isIdentifierPart, hp.1, Bool.true_or]
      exact Bool.false_ne_true (hpart.symm.trans (hds _ hmem))
  refine Text.not_mem_of_holdsOfLine hbreak (fun line hline hmem => ?_) h
  have hbare : c ∈ bare line := by
    cases line with
    | nil => cases hmem
    | cons d ds =>
      by_cases hd : d = separator
      · obtain hhead | htail := List.mem_cons.mp hmem
        · exact absurd (hhead.trans hd) hsep
        · rwa [hd, bare_separator_cons]
      · simpa [bare, hd] using hmem
  obtain hc | ⟨p, hp, hc⟩ := @Text.exists_piece_of_mem separator _ _ hbare
  · exact absurd hc hsep
  · exact hidentifier p (List.all_eq_true.mp hline p hp) hc

/-- A prefix is made of words with single separators between them. -/
theorem wordy_of_validate {root : Text} (h : Prefix.validate (some root) = .ok root) :
    Text.holdsOfLine Prefix.isWordy root = true ∧ Prefix.hasDoubled root = false :=
  (Prefix.validate_eq_ok_iff.mp h).2.2

/-- A character that is no word character occurs in no prefix, separators and a line break apart. -/
theorem not_mem_of_validate {c : Char} {root : Text} (hword : Text.isWord c = false)
    (hsep : c ≠ separator) (hbreak : c ≠ '\n') (h : Prefix.validate (some root) = .ok root) :
    c ∉ root := by
  have hwordy : ∀ line, Prefix.isWordy line = true → c ∉ line := by
    intro line hline hmem
    cases line with
    | nil => cases hmem
    | cons d ds =>
      simp only [Prefix.isWordy, Bool.and_eq_true] at hline
      obtain rfl | htail := List.mem_cons.mp hmem
      · exact Bool.false_ne_true (hword.symm.trans hline.1)
      · have hc := List.all_eq_true.mp hline.2 c htail
        simp [hword, hsep] at hc
  exact Text.not_mem_of_holdsOfLine hbreak hwordy (wordy_of_validate h).1

/-- Moving a name brings no characters in but those of the prefix. -/
theorem not_mem_relocate {root name : Text} {c : Char} (hroot : IsRoot root) (hname : IsTrimmed name)
    (hsep : c ≠ separator) (hc : c ∉ root) (hcname : c ∉ name) : c ∉ relocate root name := by
  rw [relocate_eq_beside hroot, trimmed_of_isTrimmed hname]
  unfold beside
  split
  · exact hcname
  split
  · exact hc
  · simp [hc, hcname, hsep]

end Name

namespace Relocation

variable {r : Relocation} {kind : SymbolKind} {value : Text} {m : Mention}

/-- In place of a name the moved name is spelled, with a leading separator or without. -/
theorem spelled_cases (h : r.mentionOf? kind value = some m) : Name.isSymbolName value = true
    ∧ (m.spelled = r.relocate (Name.bare value)
      ∨ m.spelled = Name.separator :: r.relocate (Name.bare value)) := by
  simp only [mentionOf?] at h
  split at h
  · cases h
  · next hname =>
    simp only [Bool.or_eq_true, not_or, Bool.not_eq_true, Bool.not_eq_false'] at hname
    split at h
    · cases h
      refine ⟨hname.1, ?_⟩
      dsimp only
      split
      · exact .inr rfl
      · exact .inl rfl
    · cases h

/-- What is neither in a prefix nor in a name is not in the moved name. -/
theorem not_mem_relocate_bare {c : Char} (hroot : Prefix.validate (some r.root) = .ok r.root)
    (hname : Name.isSymbolName value = true) (hword : Text.isWord c = false)
    (hpart : Name.isIdentifierPart c = false) (hsep : c ≠ Name.separator) (hbreak : c ≠ '\n') :
    c ∉ r.relocate (Name.bare value) := by
  have hvalue : c ∉ value := Name.not_mem_of_isSymbolName hpart hsep hbreak hname
  exact Name.not_mem_relocate (Name.isRoot_of_validate hroot) (Name.isTrimmed_of_isSymbolName hname) hsep
    (Name.not_mem_of_validate hword hsep hbreak hroot)
    fun hmem => hvalue ((Name.bare_suffix value).mem hmem)

/-- A moved name is spelled in a string without a mark for a member, and it is under the prefix. -/
theorem spelled_of_mentionOf? (hroot : Prefix.validate (some r.root) = .ok r.root)
    (h : r.mentionOf? kind value = some m) :
    ':' ∉ m.spelled ∧ r.hasMoved (Name.bare m.spelled) = true := by
  obtain ⟨hname, hspelled⟩ := spelled_cases h
  have hcolon : ':' ∉ r.relocate (Name.bare value) :=
    not_mem_relocate_bare hroot hname (by decide) (by decide) (by decide) (by decide)
  have hmoved := hasMoved_relocate (Name.isRoot_of_validate hroot) (Name.bare value)
  obtain hspelled | hspelled := hspelled
  · rw [hspelled, bare_relocate]
    exact ⟨hcolon, hmoved⟩
  · rw [hspelled, Name.bare_separator_cons]
    exact ⟨List.mem_cons.not.mpr (not_or.mpr ⟨by decide, hcolon⟩), hmoved⟩

/-- A name under the prefix is not mentioned as one to move. -/
theorem mentionOf?_of_hasMoved (h : r.hasMoved (Name.bare value) = true) :
    r.mentionOf? kind value = none := by
  simp only [mentionOf?, moves_of_hasMoved h]
  split
  · rfl
  · rfl

/-- No name in the new contents of a string moves. -/
theorem mention?_spelled (hroot : Prefix.validate (some r.root) = .ok r.root)
    (h : r.mention? kind value = some m) : r.mention? kind m.spelled = none := by
  unfold mention? at h
  split at h
  · next holder member _ =>
    obtain ⟨ofHolder, hholder, rfl⟩ := Option.map_eq_some_iff.mp h
    obtain ⟨hcolon, hmoved⟩ := spelled_of_mentionOf? hroot hholder
    have hcut : Text.cut? memberMark (ofHolder.spelled ++ memberMark ++ member)
        = some (ofHolder.spelled, member) := by
      rw [List.append_assoc]
      exact Text.cut?_of_not_mem hcolon member
    simp only [mention?, hcut, mentionOf?_of_hasMoved hmoved, Option.map_none]
  · obtain ⟨hcolon, hmoved⟩ := spelled_of_mentionOf? hroot h
    have hcut : Text.cut? memberMark m.spelled = none := Text.cut?_eq_none hcolon
    rw [mention?, hcut, mentionOf?_of_hasMoved hmoved]

end Relocation

/-- What is given for a name in a string is the new contents of the string. -/
theorem FileSetting.exists_mention?_of_run {w : FileSetting} {kind : SymbolKind}
    {value spelled : Text} {s s' : FileState}
    (hrun : ((w.prefixMention kind value).run s).outcome = .ok (some spelled, s')) :
    ∃ m, w.relocation.mention? kind value = some m ∧ spelled = m.spelled := by
  cases hmention : w.relocation.mention? kind value with
  | none =>
    simp only [prefixMention, hmention] at hrun
    cases hrun
  | some m =>
    simp only [prefixMention, hmention] at hrun
    cases hrun
    exact ⟨m, rfl, rfl⟩

/-- Work of which a part of the result is known ends well. -/
theorem PrefixingM.exists_of_run {α β : Type} {m : PrefixingM α} {s : FileState}
    {f : α × FileState → β} {b : β} (h : (m.run s).outcome.toOption.map f = some b) :
    ∃ a s', (m.run s).outcome = .ok (a, s') ∧ f (a, s') = b := by
  obtain ⟨⟨a, s'⟩, hrun, hb⟩ := exists_eq_ok_of_toOption h
  exact ⟨a, s', hrun, hb⟩

end PhpPrefixer
