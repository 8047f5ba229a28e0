import PhpPrefixer.Proofs.RulesInForce
import PhpPrefixer.Proofs.SymbolIdentity

/-!
# What the rules exclude

Rules are held as sorted lists of keys, and an excluded namespace is compared as a text that another
text may start with. Here both are read as what a user wrote: a sorted set has the members of the list
it is made from (`mem_sortedSet`), and one namespace covers another if its segments come first among
the segments of the other (`covers_iff_segments`). So, without patterns, a symbol is excluded exactly by
an entry with its own key or by an entry for a namespace above it: `Whitelist.excludes_iff`.
-/

namespace PhpPrefixer

namespace Name

variable {name : Text}

/-- The namespace of a name is its segments without the last one. -/
theorem namespaceOf_of_segments {init : List Text} {last : Text}
    (h : segments (bare name) = init ++ [last]) : namespaceOf name = Text.glue separator init := by
  simp [namespaceOf, split, h]

/-- A name is global if it is one segment. -/
theorem isGlobal_iff_of_segments {init : List Text} {last : Text}
    (h : segments (bare name) = init ++ [last]) : isGlobal name = true ↔ init = [] := by
  rw [isGlobal_iff]
  constructor
  · intro hsep
    have hone : segments (bare name) = [bare name] := Text.pieces_of_not_mem hsep
    have hlength := congrArg List.length (h.symm.trans hone)
    simpa using hlength
  · rintro rfl
    have hlast : bare name = last := by
      rw [← glue_segments (bare name), h, List.nil_append, Text.glue_singleton]
    rw [hlast]
    exact separator_not_mem_segment (by rw [h]; exact List.mem_singleton.mpr rfl)

/-- The namespace of a name that has one is made of the segments before the last. -/
theorem WellFormed.segment_namespaceOf_ne_nil (h : WellFormed name) (hnamed : isGlobal name = false) :
    ∀ s ∈ segments (namespaceOf name), s ≠ [] := by
  obtain ⟨init, last, hs⟩ := segments_concat (bare name)
  have hinit : init ≠ [] := fun hnil => by
    rw [(isGlobal_iff_of_segments hs).mpr hnil] at hnamed
    cases hnamed
  have hmem : ∀ s ∈ init, s ∈ segments (bare name) := fun s hmem => by
    rw [hs]
    exact List.mem_append_left _ hmem
  have hsegments : segments (namespaceOf name) = init := by
    rw [namespaceOf_of_segments hs]
    exact Text.pieces_glue hinit fun s hi => separator_not_mem_segment (hmem s hi)
  rw [hsegments]
  exact fun s hi => h s (hmem s hi)

/-- The namespace of a well-formed name has no separators around it. -/
theorem WellFormed.isTrimmed_namespaceOf (h : WellFormed name) (hnamed : isGlobal name = false) :
    IsTrimmed (namespaceOf name) := by
  have hne := h.segment_namespaceOf_ne_nil hnamed
  exact isTrimmed_of_segments (fun hhead => hne [] (List.mem_of_mem_head? hhead) rfl)
    (fun hlast => hne [] (List.mem_of_getLast? hlast) rfl)

/-- The namespace of a name that is not global is not empty. -/
theorem WellFormed.namespaceOf_ne_nil (h : WellFormed name) (hnamed : isGlobal name = false) :
    namespaceOf name ≠ [] := by
  intro hnil
  refine h.segment_namespaceOf_ne_nil hnamed [] ?_ rfl
  rw [hnil]
  exact List.mem_singleton.mpr rfl

/-- The namespace of a global name is empty. -/
theorem namespaceOf_of_isGlobal (h : isGlobal name = true) : namespaceOf name = [] := by
  obtain ⟨init, last, hs⟩ := segments_concat (bare name)
  rw [namespaceOf_of_segments hs, (isGlobal_iff_of_segments hs).mp h]
  rfl

end Name

namespace WhitelistOptions

/-- No rule is written as a pattern. -/
def HasNoPatterns (o : WhitelistOptions) : Prop := ∀ kind, o.patternsOf kind = []

/-- An entry names one symbol of a kind. -/
def Names (o : WhitelistOptions) (kind : SymbolKind) (entry : Text) : Prop :=
  entry ∈ o.entriesOf kind ∧ ¬(kind = .classLike ∧ starEnding <:+ entry)

/-- An entry names a namespace that is left alone: among the namespaces, or among the classes with a
star. -/
def NamesNamespace (o : WhitelistOptions) (entry : Text) : Prop :=
  entry ∈ o.excludedNamespaces ∨ entry ++ starEnding ∈ o.classes

end WhitelistOptions

namespace Whitelist

open WhitelistOptions

variable {o : WhitelistOptions} {w : Whitelist} {patterns : SymbolKind → List Pattern}

/-- The namespaces that are excluded are the keys of those that the rules name. -/
theorem mem_excludedNamespaces_ofParts {key : Text} :
    key ∈ (ofParts o patterns).excludedNamespaces
      ↔ ∃ entry, o.NamesNamespace entry ∧ namespaceKey entry = key := by
  have hstarred : ∀ entry, entry ∈ o.classes.filterMap starred? ↔ entry ++ starEnding ∈ o.classes := by
    intro entry
    simp [List.mem_filterMap, starred?_eq_some_iff]
  simp only [ofParts, mem_sortedSet, List.mem_map, List.mem_append, hstarred, NamesNamespace]

/-- The keys of a kind are those of the entries that name a symbol of the kind. -/
theorem mem_exactOf_ofParts {kind : SymbolKind} (hkind : kind ≠ .nameSpace) {key : Text} :
    key ∈ (ofParts o patterns).exactOf kind
      ↔ ∃ entry, o.Names kind entry ∧ Name.key kind entry = key := by
  cases kind with
  | nameSpace => exact absurd rfl hkind
  | classLike =>
    simp only [exactOf, ofParts, mem_sortedSet, List.mem_map, List.mem_filter, Names, entriesOf,
      Option.isNone_iff_eq_none, starred?_eq_none_iff, true_and]
  | function => simp [exactOf, ofParts, mem_sortedSet, Names, entriesOf]
  | constant => simp [exactOf, ofParts, mem_sortedSet, Names, entriesOf]

/-- A namespace covers another one if its segments are the first segments of the other. -/
theorem covers_iff_segments {excluded space : Text} (hne : excluded ≠ []) :
    covers excluded space = true ↔ Name.segments excluded <+: Name.segments space := by
  simp only [covers, ne_eq, hne, not_false_eq_true, decide_true, Bool.true_and, Bool.or_eq_true,
    decide_eq_true_eq, List.isPrefixOf_iff_prefix]
  constructor
  · rintro (rfl | ⟨rest, rfl⟩)
    · exact List.prefix_rfl
    · refine ⟨Name.segments rest, ?_⟩
      rw [List.append_assoc, List.singleton_append]
      exact (Text.pieces_append_sep Name.separator excluded rest).symm
  · rintro ⟨rest, hrest⟩
    have hspace := Name.glue_segments space
    rw [← hrest] at hspace
    by_cases hnil : rest = []
    · left
      rw [← hspace, hnil, List.append_nil, Name.glue_segments]
    · right
      rw [Name.glue_append (Name.segments_ne_nil excluded) hnil, Name.glue_segments] at hspace
      exact ⟨Text.glue Name.separator rest, by simpa using hspace⟩

/-- The unnamed namespace covers itself only. -/
theorem covers_nil {space : Text} : covers [] space = true ↔ space = [] := by
  simp [covers]

/-- Only a namespace of nothing but separators has the empty key. -/
theorem namespaceKey_eq_nil_iff {space : Text} : namespaceKey space = [] ↔ Name.trimmed space = [] :=
  Text.lower_eq_nil_iff

/-- A named namespace is excluded by an entry whose segments come first among its own. -/
theorem excludesNamespace_ofParts (hw : (ofParts o patterns).HasNoPatterns) {space : Text}
    (hne : space ≠ []) (ht : Name.IsTrimmed space) :
    (ofParts o patterns).excludesNamespace space = true
      ↔ ∃ entry, o.NamesNamespace entry ∧ Name.trimmed entry ≠ []
        ∧ (Name.segments (Name.trimmed entry)).map Text.lower
          <+: Name.segments (Text.lower space) := by
  have hspace : namespaceKey space = Text.lower space := by
    rw [namespaceKey, Name.trimmed_of_isTrimmed ht]
  have hpatterns : (ofParts o patterns).namespacePatterns = [] := hw .nameSpace
  rw [excludesNamespace, hpatterns, List.any_nil, Bool.or_false, List.any_eq_true, hspace]
  constructor
  · rintro ⟨key, hkey, hcovers⟩
    obtain ⟨entry, hentry, rfl⟩ := mem_excludedNamespaces_ofParts.mp hkey
    have htrimmed : namespaceKey entry ≠ [] := by
      intro hnil
      rw [hnil, covers_nil, Text.lower_eq_nil_iff] at hcovers
      exact hne hcovers
    rw [covers_iff_segments htrimmed, namespaceKey, Name.segments_lower] at hcovers
    exact ⟨entry, hentry, fun hnil => htrimmed (namespaceKey_eq_nil_iff.mpr hnil), hcovers⟩
  · rintro ⟨entry, hentry, htrimmed, hsegments⟩
    refine ⟨namespaceKey entry, mem_excludedNamespaces_ofParts.mpr ⟨entry, hentry, rfl⟩, ?_⟩
    rw [covers_iff_segments fun hnil => htrimmed (namespaceKey_eq_nil_iff.mp hnil), namespaceKey,
      Name.segments_lower]
    exact hsegments

/-- The unnamed namespace is excluded by an entry of separators only. -/
theorem nil_mem_excludedNamespaces :
    [] ∈ (ofParts o patterns).excludedNamespaces
      ↔ ∃ entry, o.NamesNamespace entry ∧ Name.trimmed entry = [] := by
  simp only [mem_excludedNamespaces_ofParts, namespaceKey_eq_nil_iff]

/-- Without patterns a symbol is excluded by its key or by its namespace. -/
theorem excludes_of_hasNoPatterns (hw : w.HasNoPatterns) {kind : SymbolKind}
    (hkind : kind ≠ .nameSpace) (name : Text) :
    w.excludes kind name = true
      ↔ Name.key kind name ∈ w.exactOf kind
        ∨ Name.namespaceOf name ≠ [] ∧ w.excludesNamespace (Name.namespaceOf name) = true
        ∨ Name.namespaceOf name = [] ∧ [] ∈ w.excludedNamespaces := by
  have hunnamed : [] ∈ w.excludedNamespaces → w.excludesNamespace [] = true := fun hmem => by
    have hcovers : w.excludedNamespaces.any (covers · (namespaceKey [])) = true :=
      List.any_eq_true.mpr ⟨[], hmem, covers_nil.mpr rfl⟩
    rw [excludesNamespace, hcovers, Bool.true_or]
  by_cases hspace : Name.namespaceOf name = []
  · by_cases hmem : [] ∈ w.excludedNamespaces
    · simp [excludes, hkind, hw kind, hspace, hmem, hunnamed hmem]
    · simp [excludes, hkind, hw kind, hspace, hmem]
  · simp [excludes, hkind, hw kind, hspace]

/-- Rules without patterns are accepted, and they exclude a symbol exactly if an entry has its key, or
it has a namespace and the segments of an entry for a namespace come first there, in any letter case
and with any separators around the entry, or it has no namespace and such an entry is only separators. -/
theorem excludes_iff (h : o.HasNoPatterns) :
    ∃ w, ofOptions o = .ok w ∧ ∀ kind ≠ .nameSpace, ∀ name, Name.WellFormed name →
      (w.excludes kind name = true
        ↔ (∃ entry, o.Names kind entry ∧ Name.key kind entry = Name.key kind name)
          ∨ (Name.isGlobal name = false ∧ ∃ entry, o.NamesNamespace entry ∧ Name.trimmed entry ≠ []
            ∧ (Name.segments (Name.trimmed entry)).map Text.lower
              <+: Name.segments (Text.lower (Name.namespaceOf name)))
          ∨ (Name.isGlobal name = true ∧ ∃ entry, o.NamesNamespace entry
            ∧ Name.trimmed entry = [])) := by
  have hread : ∀ kind, (o.patternsOf kind).mapM Dialect.standard.read = .ok [] := fun kind => by
    rw [h kind]
    rfl
  have hnone : (ofParts o fun _ => []).HasNoPatterns := fun kind => by cases kind <;> rfl
  refine ⟨ofParts o fun _ => [], ofOptions_of_patterns hread, fun kind hkind name hname => ?_⟩
  rw [excludes_of_hasNoPatterns hnone hkind, mem_exactOf_ofParts hkind, nil_mem_excludedNamespaces]
  cases hglobal : Name.isGlobal name with
  | true => simp [Name.namespaceOf_of_isGlobal hglobal]
  | false =>
    have hne := hname.namespaceOf_ne_nil hglobal
    simp [hne, excludesNamespace_ofParts hnone hne (hname.isTrimmed_namespaceOf hglobal)]

/-- Rules with an entry of every form, and separators around some of them. -/
def sampleRules : WhitelistOptions where
  excludedNamespaces := ["\\Acme\\".toList, "\\".toList]
  classes := ["\\Vendor\\Kept".toList, "Lib\\Core\\*".toList]
  functions := ["Tools\\Run".toList]
  constants := ["App\\LIMIT".toList]

/-- Rules of every form, and names in other spellings. A namespace excludes what is below it, but not a
namespace that merely starts like it. -/
theorem excludes_iff_sampleRules :
    sampleRules.HasNoPatterns ∧ ∃ w, ofOptions sampleRules = .ok w
      ∧ w.excludes .classLike "\\ACME\\Sub\\Foo".toList = true
      ∧ w.excludes .function "AcmeExtra\\run".toList = false
      ∧ w.excludes .classLike "lib\\core\\Foo".toList = true
      ∧ w.excludes .constant "\\app\\LIMIT".toList = true
      ∧ w.excludes .function "strlen".toList = true := by
  have hrules : sampleRules.HasNoPatterns := fun kind => by cases kind <;> rfl
  obtain ⟨w, hw, hexcludes⟩ := excludes_iff hrules
  have hacme : sampleRules.NamesNamespace "\\Acme\\".toList := .inl (by decide)
  have hlib : sampleRules.NamesNamespace "Lib\\Core".toList := .inr (by decide)
  have hunnamed : sampleRules.NamesNamespace "\\".toList := .inl (by decide)
  refine ⟨hrules, w, hw, ?_, ?_, ?_, ?_, ?_⟩
  · exact (hexcludes _ (by decide) _ (by decide)).mpr
      (.inr (.inl ⟨by decide, _, hacme, by decide, by decide⟩))
  · refine Bool.eq_false_iff.mpr fun h => ?_
    obtain ⟨entry, ⟨hentry, -⟩, hkey⟩ | ⟨-, entry, hentry, hne, hsegments⟩ | ⟨hglobal, -⟩ :=
      (hexcludes _ (by decide) _ (by decide)).mp h
    · obtain rfl := List.mem_singleton.mp hentry
      exact absurd hkey (by decide)
    · obtain hlisted | hstarred := hentry
      · obtain rfl | hlast := List.mem_cons.mp hlisted
        · exact absurd hsegments (by decide)
        · obtain rfl := List.mem_singleton.mp hlast
          exact hne rfl
      · obtain hkept | hlast := List.mem_cons.mp hstarred
        · cases starred?_eq_some_iff.mpr hkept.symm
        · cases starred?_eq_some_iff.mpr (List.mem_singleton.mp hlast).symm
          exact absurd hsegments (by decide)
    · cases hglobal
  · exact (hexcludes _ (by decide) _ (by decide)).mpr
      (.inr (.inl ⟨by decide, _, hlib, by decide, by decide⟩))
  · exact (hexcludes _ (by decide) _ (by decide)).mpr
      (.inl ⟨"App\\LIMIT".toList, ⟨by decide, by decide⟩, by decide⟩)
  · exact (hexcludes _ (by decide) _ (by decide)).mpr (.inr (.inr ⟨by decide, _, hunnamed, by decide⟩))

end Whitelist

end PhpPrefixer
