import PhpPrefixer.Proofs.MovedOnce
import PhpPrefixer.Proofs.Resolution

/-!
# Names that are under the prefix already

A name that denotes a symbol under the prefix is never moved a second time, and so it is left as it is
written. It is not pinned either. Where it is found through a namespace that itself moves, it moves
along: `FileSetting.resolve_already_moved` says that it then denotes a symbol under the prefix twice,
that this is the only way for it to be lost, and in which namespaces it happens. They are the global
namespace, and those that the prefix lies in.
-/

namespace PhpPrefixer

/-- A name is found through a namespace that moves. -/
def Lexical.IsCarried (scope : Lexical) (kind : SymbolKind) (text : Text) : Prop :=
  scope.moved = true ∧ (scope.resolve kind text).spelling ≠ .fullyQualified
    ∧ (scope.resolve kind text).imported = false

instance (scope : Lexical) (kind : SymbolKind) (text : Text) :
    Decidable (scope.IsCarried kind text) :=
  inferInstanceAs (Decidable (_ ∧ _ ∧ _))

namespace Name

/-- A name of which another one is the beginning, up to a separator and letter case, is under it. -/
theorem isUnder_of_start {root name : Text} (hname : IsTrimmed name)
    (h : Text.lower root ++ [separator] <+: Text.lower name) : isUnder root name = true := by
  rw [isUnder, bare_of_isTrimmed hname]
  simp [List.isPrefixOf_iff_prefix, h]

/-- Of two names that a separator follows, one begins the other only if they are equal or the
separator is part of the longer one. -/
theorem eq_or_prefix_of_prefix_concat {a b : Text} (h : a ++ [separator] <+: b ++ [separator]) :
    a = b ∨ a ++ [separator] <+: b := by
  obtain heq | hshorter := List.prefix_concat_iff.mp h
  · exact .inl (List.append_cancel_right heq)
  · exact .inr hshorter

/-- Where a name under a prefix stands in a namespace, the namespace is under the prefix itself, or
the prefix lies in the namespace. -/
theorem isUnder_beside {root space part : Text} (hroot : IsTrimmed root) (hspace : IsTrimmed space)
    (hpart : IsTrimmed part) (hne : space ≠ []) (h : isUnder root (beside space part) = true) :
    isUnder root space = true ∨ isUnder space root = true := by
  by_cases hnil : part = []
  · rw [hnil, beside_nil] at h
    exact .inl h
  have hbelow : Text.lower space ++ [separator] <+: Text.lower (beside space part) := by
    rw [beside_of_ne_nil hne hnil, Text.lower_append_separator]
    simp
  rw [isUnder, bare_of_isTrimmed (isTrimmed_beside hspace hpart)] at h
  simp only [Bool.or_eq_true, decide_eq_true_eq, List.isPrefixOf_iff_prefix] at h
  obtain heq | habove := h
  · exact .inr (isUnder_of_start hroot (heq ▸ hbelow))
  have hsame : Text.lower root = Text.lower space → isUnder root space = true := by
    intro heq
    rw [isUnder, bare_of_isTrimmed hspace]
    simp [heq]
  obtain hroot' | hspace' := List.prefix_or_prefix_of_prefix habove hbelow
  · obtain heq | hstart := eq_or_prefix_of_prefix_concat hroot'
    · exact .inl (hsame heq)
    · exact .inl (isUnder_of_start hspace hstart)
  · obtain heq | hstart := eq_or_prefix_of_prefix_concat hspace'
    · exact .inl (hsame heq.symm)
    · exact .inr (isUnder_of_start hroot hstart)

end Name

namespace Relocation

variable {r : Relocation} {scope : Lexical} {kind : SymbolKind} {text : Text}

/-- Nothing is done about a name that is under the prefix. -/
theorem reference_of_hasMoved (h : r.hasMoved (scope.resolve kind text).name = true) :
    r.reference scope kind text = {} := by
  simp [reference, referenceResolved, h]

/-- A name that is carried along is that of its namespace and another part. -/
theorem exists_part_of_isCarried (r : Relocation) (h : scope.IsCarried kind text) :
    ∃ part, (scope.resolve kind text).name = Name.join [scope.space, part]
      ∧ ((r.scopeAfter scope).resolve kind text).name
        = Name.join [r.relocate scope.space, part] := by
  obtain ⟨hmoved, hspelling, hlocal⟩ := h
  have hspace : (r.scopeAfter scope).space = r.relocate scope.space := if_pos hmoved
  rcases r.resolve_scopeAfter scope kind text with
    ⟨hfully, -⟩ | ⟨-, -, part, -, hname, hafter⟩ | ⟨-, himported, -⟩ | ⟨-, himported⟩
  · exact absurd hfully hspelling
  · exact ⟨part, hname, hspace ▸ hafter⟩
  · exact absurd (hlocal.symm.trans himported) Bool.false_ne_true
  · exact absurd (hlocal.symm.trans himported) Bool.false_ne_true

/-- A name that is carried along denotes afterwards what it denoted, under the prefix once more. -/
theorem resolve_scopeAfter_of_isCarried (hroot : Name.IsRoot r.root)
    (h : scope.IsCarried kind text) :
    ((r.scopeAfter scope).resolve kind text).name = r.relocate (scope.resolve kind text).name := by
  obtain ⟨part, hname, hafter⟩ := exists_part_of_isCarried r h
  rw [hafter, hname]
  exact Name.relocate_join hroot scope.space part

/-- A name under the prefix that is not carried along still denotes its symbol. -/
theorem resolve_scopeAfter_of_not_isCarried
    (hdirect : ¬((scope.resolve kind text).spelling = .qualified
      ∧ (scope.resolve kind text).imported = true))
    (hmoved : r.hasMoved (scope.resolve kind text).name = true)
    (h : ¬scope.IsCarried kind text) :
    ((r.scopeAfter scope).resolve kind text).name = (scope.resolve kind text).name := by
  rcases r.resolve_scopeAfter scope kind text with
    ⟨-, -, hafter, -⟩ | ⟨hspelling, hlocal, part, -, hname, hafter⟩ | ⟨-, -, hafter⟩ | himported
  · exact hafter
  · have hstays : ¬scope.moved = true := fun hspace => h ⟨hspace, hspelling, hlocal⟩
    have hspace : (r.scopeAfter scope).space = scope.space := if_neg hstays
    rw [hafter, hname, hspace]
  · have hstays : ¬r.moves kind (scope.resolve kind text).name = true := by
      rw [moves_of_hasMoved hmoved]
      exact Bool.false_ne_true
    rw [hafter, nameAfter, if_neg hstays]
  · exact absurd himported hdirect

/-- A name under the prefix is carried along only in global code and in a namespace that the prefix
lies in. -/
theorem space_of_isCarried (hroot : Name.IsRoot r.root) (hspace : Name.IsTrimmed scope.space)
    (hunmoved : r.hasMoved scope.space = false)
    (hmoved : r.hasMoved (scope.resolve kind text).name = true) (h : scope.IsCarried kind text) :
    scope.space = [] ∨ Name.isUnder scope.space r.root = true := by
  obtain ⟨part, hname, -⟩ := exists_part_of_isCarried r h
  rw [hname, Name.join_pair, Name.trimmed_of_isTrimmed hspace] at hmoved
  by_cases hnil : scope.space = []
  · exact .inl hnil
  obtain hunder | habove :=
    Name.isUnder_beside hroot.isTrimmed hspace (Name.isTrimmed_trimmed part) hnil hmoved
  · exact absurd (hunmoved.symm.trans hunder) Bool.false_ne_true
  · exact .inr habove

end Relocation

namespace FileSetting

/-- A name that is under the prefix already, and that is not qualified by an imported one, is left as
it is and nothing is recorded. If it is found through a namespace that moves, it denotes afterwards a
symbol that is under the prefix twice; in every other way it still denotes the symbol it denoted. The
former happens only in global code and in a namespace that the prefix itself lies in. -/
theorem resolve_already_moved (w : FileSetting) (kind : SymbolKind) (n : Node) (s : FileState)
    {text : Text} (hroot : Prefix.validate (some w.relocation.root) = .ok w.relocation.root)
    (htext : w.source.text? n = some text)
    (hdirect : ¬((s.scope.resolve kind text).spelling = .qualified
      ∧ (s.scope.resolve kind text).imported = true))
    (hmoved : w.relocation.hasMoved (s.scope.resolve kind text).name = true) :
    let name := (s.scope.resolve kind text).name
    let found := ((w.relocation.scopeAfter s.scope).resolve kind text).name
    ((w.moveReference kind n).run s).outcome = .ok ((), s)
      ∧ found = (if s.scope.IsCarried kind text then w.relocation.relocate name else name)
      ∧ (found = name ↔ ¬s.scope.IsCarried kind text)
      ∧ (s.scope.IsCarried kind text → Name.IsTrimmed s.scope.space →
          w.relocation.hasMoved s.scope.space = false →
        s.scope.space = [] ∨ Name.isUnder s.scope.space w.relocation.root = true) := by
  intro name found
  have hrootOf := Name.isRoot_of_validate hroot
  have hrun := outcome_moveReference kind s htext
  have hkept : w.stateAfter kind n (w.relocation.reference s.scope kind text) s = s := by
    rw [Relocation.reference_of_hasMoved hmoved]
    simp [stateAfter]
  rw [hkept] at hrun
  refine ⟨hrun, ?_, ?_, fun hcarried hspace hunmoved =>
    Relocation.space_of_isCarried hrootOf hspace hunmoved hmoved hcarried⟩
  · split
    · next hcarried => exact Relocation.resolve_scopeAfter_of_isCarried hrootOf hcarried
    · next hstays => exact Relocation.resolve_scopeAfter_of_not_isCarried hdirect hmoved hstays
  · constructor
    · intro hsame hcarried
      have htwice := Relocation.resolve_scopeAfter_of_isCarried hrootOf hcarried
      obtain ⟨part, hname, -⟩ := Relocation.exists_part_of_isCarried w.relocation hcarried
      have htrimmed : Name.IsTrimmed name := by
        rw [show name = _ from hname]
        exact Name.isTrimmed_join _
      exact Relocation.relocate_ne_self hrootOf htrimmed (htwice.symm.trans hsame)
    · exact Relocation.resolve_scopeAfter_of_not_isCarried hdirect hmoved

/-- A name relative to a namespace that moves, and that a prefix of two segments lies in. -/
theorem resolve_already_moved_relative :
    let text : Text := "namespace\\Lib\\Client".toList
    let w : FileSetting :=
      { path := "a.php".toList, relocation := ⟨"Humbug\\Lib".toList, ⟨.empty, .empty⟩⟩,
        policy := .skip, warnDynamic := false, source := .ofText text }
    let n : Node := .mk "relative_name" true false ⟨0, 20⟩ none []
    let s : FileState := ⟨.entered "humbug".toList true, [], []⟩
    (s.scope.resolve .classLike text).name = "humbug\\Lib\\Client".toList
      ∧ w.relocation.hasMoved s.scope.space = false
      ∧ ((w.moveReference .classLike n).run s).outcome = .ok ((), s)
      ∧ ((w.relocation.scopeAfter s.scope).resolve .classLike text).name
        = "Humbug\\Lib\\humbug\\Lib\\Client".toList := by
  intro text w n s
  obtain ⟨hrun, hfound, -⟩ := resolve_already_moved w .classLike n s (by decide +kernel)
    (show w.source.text? n = some text by decide +kernel) (by decide +kernel) (by decide +kernel)
  exact ⟨by decide +kernel, by decide +kernel, hrun, hfound.trans (by decide +kernel)⟩

/-- In global code, which moves, a qualified name of a class under the prefix is lost. -/
theorem resolve_already_moved_lost :
    let r : Relocation := ⟨"Humbug".toList, ⟨.empty, .empty⟩⟩
    let scope : Lexical := .start
    let text : Text := "Humbug\\Client".toList
    Prefix.validate (some r.root) = .ok r.root ∧ Name.WellFormed text
      ∧ Relocation.isNoReference .classLike text = false
      ∧ (scope.resolve .classLike text).imported = false
      ∧ r.hasMoved (scope.resolve .classLike text).name = true
      ∧ ((r.scopeAfter scope).resolve .classLike (r.rewritten scope .classLike text)).name
        ≠ (scope.resolve .classLike text).name := by
  decide +kernel

end FileSetting

end PhpPrefixer
