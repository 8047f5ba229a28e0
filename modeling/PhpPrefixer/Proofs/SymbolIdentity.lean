import PhpPrefixer.Classifier
import PhpPrefixer.Proofs.NameAlgebra

/-!
# Spellings of one symbol

Names with one key are spellings of one symbol. Segment by segment they differ in letter case only
(`Name.segments_key`), and so do their namespaces. Rules without patterns look at nothing else, so they
decide alike about all spellings of a symbol: `Classifier.classify_congr`. For a symbol of a named
namespace this holds whatever separators stand in front of a spelling
(`Classifier.classify_of_key_eq`).
-/

namespace PhpPrefixer

namespace Name

/-- Separators are where they are in lower case. -/
theorem separator_mem_lower {t : Text} : separator ∈ Text.lower t ↔ separator ∈ t := by
  constructor
  · intro h
    by_contra hnot
    exact Text.separator_not_mem_lower hnot h
  · intro h
    obtain ⟨before, after, rfl⟩ := List.append_of_mem h
    rw [Text.lower_append_separator]
    simp

/-- A name is global if it has no namespace part. -/
theorem isGlobal_iff {name : Text} : isGlobal name = true ↔ separator ∉ bare name := by
  simp [isGlobal]

/-- There are no separators in a segment. -/
theorem separator_not_mem_segment {t p : Text} (h : p ∈ segments t) : separator ∉ p :=
  Text.sep_not_mem_of_mem_pieces h

/-- The key of a name has the segments of the name in lower case, but for the last one of a
constant. -/
theorem segments_key (kind : SymbolKind) {t last : Text} {init : List Text} (h : IsTrimmed t)
    (hs : segments t = init ++ [last]) :
    segments (key kind t)
      = init.map Text.lower ++ [if kind = .constant then last else Text.lower last] := by
  by_cases hkind : kind = .constant
  · have hlast : segments last = [last] :=
      Text.pieces_of_not_mem (separator_not_mem_segment (t := t) (by simp [hs]))
    rw [hkind, if_pos rfl, key_constant h, split_of_segments h hs]
    by_cases hinit : init = []
    · rw [hinit, List.map_nil, List.nil_append]
      exact hlast
    · have hne : t ≠ [] := by
        rintro rfl
        have hlength := congrArg List.length hs
        simp only [List.length_append, List.length_singleton] at hlength
        exact hinit (List.length_eq_zero_iff.mp (by simpa [segments, Text.pieces] using hlength))
      have hspace := glue_init_ne_nil h hs hinit
      have hparts : segments (Text.glue separator init) = init :=
        Text.pieces_glue hinit fun p hp => separator_not_mem_segment (t := t) (by simp [hs, hp])
      rw [segments_beside (by simpa using hspace) (last_segment_ne_nil h hne hs), segments_lower,
        hparts, hlast]
  · rw [key_of_ne_constant hkind, bare_of_isTrimmed h, segments_lower, hs, if_neg hkind,
      List.map_append, List.map_singleton]

/-- Segments of names with one key differ in letter case only. -/
theorem map_lower_of_key_eq {kind : SymbolKind} {a b lastA lastB : Text} {initA initB : List Text}
    (ha : IsTrimmed a) (hb : IsTrimmed b) (hA : segments a = initA ++ [lastA])
    (hB : segments b = initB ++ [lastB]) (h : key kind a = key kind b) :
    initA.map Text.lower = initB.map Text.lower ∧ Text.lower lastA = Text.lower lastB := by
  have hsegments := congrArg segments h
  rw [segments_key kind ha hA, segments_key kind hb hB] at hsegments
  obtain ⟨hinit, hlast⟩ := List.append_inj' hsegments rfl
  refine ⟨hinit, ?_⟩
  have hlast := List.singleton_inj.mp hlast
  split at hlast
  · exact congrArg Text.lower hlast
  · exact hlast

/-- Names with one key differ in letter case only. -/
theorem lower_eq_of_key_eq {kind : SymbolKind} {a b : Text} (ha : IsTrimmed a) (hb : IsTrimmed b)
    (h : key kind a = key kind b) : Text.lower a = Text.lower b := by
  obtain ⟨initA, lastA, hA⟩ := segments_concat a
  obtain ⟨initB, lastB, hB⟩ := segments_concat b
  obtain ⟨hinit, hlast⟩ := map_lower_of_key_eq ha hb hA hB h
  rw [← glue_segments a, ← glue_segments b, Text.lower_glue, Text.lower_glue, hA, hB,
    List.map_append, List.map_append, hinit, List.map_singleton, List.map_singleton, hlast]

/-- The namespaces of names with one key differ in letter case only. -/
theorem lower_namespaceOf_of_key_eq {kind : SymbolKind} {a b : Text} (ha : IsTrimmed a)
    (hb : IsTrimmed b) (h : key kind a = key kind b) :
    Text.lower (namespaceOf a) = Text.lower (namespaceOf b) := by
  obtain ⟨initA, lastA, hA⟩ := segments_concat a
  obtain ⟨initB, lastB, hB⟩ := segments_concat b
  obtain ⟨hinit, -⟩ := map_lower_of_key_eq ha hb hA hB h
  rw [namespaceOf, namespaceOf, split_of_segments ha hA, split_of_segments hb hB, Text.lower_glue,
    Text.lower_glue, hinit]

/-- Names that read alike in lower case are both global, or neither is. -/
theorem isGlobal_congr {a b : Text} (ha : IsTrimmed a) (hb : IsTrimmed b)
    (h : Text.lower a = Text.lower b) : isGlobal a = isGlobal b := by
  rw [Bool.eq_iff_iff, isGlobal_iff, isGlobal_iff, bare_of_isTrimmed ha, bare_of_isTrimmed hb,
    ← separator_mem_lower, ← separator_mem_lower (t := b), h]

/-- A name is trimmed if its first and its last segment are not empty. -/
theorem isTrimmed_of_segments {t : Text} (hfirst : (segments t).head? ≠ some [])
    (hlast : (segments t).getLast? ≠ some []) : IsTrimmed t := by
  constructor
  · intro hhead
    obtain ⟨cs, rfl⟩ := List.head?_eq_some_iff.mp hhead
    exact hfirst (by rw [segments, Text.pieces_sep_cons, List.head?_cons])
  · intro hend
    obtain ⟨cs, rfl⟩ := List.getLast?_eq_some_iff.mp hend
    refine hlast ?_
    have hsegments : segments (cs ++ [separator]) = segments cs ++ [[]] :=
      Text.pieces_append_sep separator cs []
    rw [hsegments, List.getLast?_concat]

/-- A name without separators around it starts with a segment. -/
theorem first_segment_ne_nil {t : Text} (h : IsTrimmed t) (hne : t ≠ []) :
    (segments t).head? ≠ some [] := by
  intro hhead
  obtain ⟨rest, hrest⟩ := List.head?_eq_some_iff.mp hhead
  have hglue := glue_segments t
  rw [hrest] at hglue
  cases rest with
  | nil => exact hne (by rw [← hglue, Text.glue_singleton])
  | cons p ps =>
    rw [Text.glue_cons_cons, List.nil_append] at hglue
    exact h.1 (by rw [← hglue, List.head?_cons])

/-- The key of a constant in terms of what is left without two leading separators. -/
theorem key_constant_eq {name last : Text} {init : List Text}
    (hs : segments (bare (bare name)) = init ++ [last]) :
    key .constant name
      = if Text.glue separator init = [] then last
        else Text.lower (Text.glue separator init) ++ separator :: last := by
  simp [key, SymbolKind.caseSensitive, split, hs]

/-- A constant has no separators around it if its key is that of a name in a namespace. -/
theorem isTrimmed_of_key_constant_eq {a b : Text} (hb : IsTrimmed b) (hnamed : isGlobal b = false)
    (h : key .constant a = key .constant b) : IsTrimmed (bare (bare a)) := by
  obtain ⟨initA, lastA, hA⟩ := segments_concat (bare (bare a))
  obtain ⟨initB, lastB, hB⟩ := segments_concat b
  have hmem : separator ∈ b := by
    by_contra hnot
    rw [← bare_of_isTrimmed hb, ← isGlobal_iff, hnamed] at hnot
    exact Bool.false_ne_true hnot
  have hne : b ≠ [] := List.ne_nil_of_mem hmem
  have hinitB : initB ≠ [] := by
    rintro rfl
    have hglue := glue_segments b
    rw [hB, List.nil_append, Text.glue_singleton] at hglue
    exact separator_not_mem_segment (t := b) (by simp [hB]) (hglue ▸ hmem)
  have hkey := segments_key .constant hb hB
  rw [if_pos rfl, ← h, key_constant_eq hA] at hkey
  have hlastA : segments lastA = [lastA] :=
    Text.pieces_of_not_mem (separator_not_mem_segment (t := bare (bare a)) (by simp [hA]))
  have hspace : Text.glue separator initA ≠ [] := by
    intro hnil
    rw [if_pos hnil, hlastA] at hkey
    have hlength := congrArg List.length hkey
    simp only [List.length_append, List.length_map, List.length_singleton] at hlength
    exact hinitB (List.length_eq_zero_iff.mp (by omega))
  have hinitA : initA ≠ [] := by
    rintro rfl
    exact hspace rfl
  have hparts : segments (Text.glue separator initA) = initA := Text.pieces_glue hinitA
    fun p hp => separator_not_mem_segment (t := bare (bare a)) (by simp [hA, hp])
  have hsplit : segments (Text.lower (Text.glue separator initA) ++ separator :: lastA)
      = initA.map Text.lower ++ [lastA] := by
    rw [← hparts, ← segments_lower, hparts, ← hlastA]
    exact Text.pieces_append_sep separator _ lastA
  rw [if_neg hspace, hsplit] at hkey
  obtain ⟨hinit, hlast⟩ := List.append_inj' hkey rfl
  apply isTrimmed_of_segments
  · have hfirst := first_segment_ne_nil hb hne
    obtain ⟨q, qs, rfl⟩ := List.exists_cons_of_ne_nil hinitB
    obtain ⟨p, ps, rfl⟩ := List.exists_cons_of_ne_nil hinitA
    rw [hB, List.cons_append, List.head?_cons] at hfirst
    rw [hA, List.cons_append, List.head?_cons]
    intro hnil
    have hlower : Text.lower p = Text.lower q := (List.cons_eq_cons.mp hinit).1
    rw [Option.some_inj.mp hnil, Text.lower_nil, eq_comm, Text.lower_eq_nil_iff] at hlower
    exact hfirst (by rw [hlower])
  · rw [hA, List.getLast?_concat, List.singleton_inj.mp hlast]
    exact fun hnil => last_segment_ne_nil hb hne hB (Option.some_inj.mp hnil)

/-- A spelling of a symbol of a named namespace is a trimmed spelling with at most one separator in
front, or two if it is a constant. -/
theorem exists_isTrimmed_of_key_eq {kind : SymbolKind} {a b : Text} (hb : IsTrimmed b)
    (hnamed : isGlobal b = false) (h : key kind a = key kind b) :
    ∃ c, IsTrimmed c ∧ key kind c = key kind b
      ∧ (bare a = c ∨ (kind = .constant ∧ bare a = separator :: c)) := by
  by_cases hkind : kind = .constant
  · rw [hkind] at h ⊢
    have hc := isTrimmed_of_key_constant_eq hb hnamed h
    refine ⟨bare (bare a), hc, ?_, ?_⟩
    · rw [← h]
      simp [key, SymbolKind.caseSensitive, split, bare_of_isTrimmed hc]
    · by_cases hhead : (bare a).head? = some separator
      · obtain ⟨cs, hcs⟩ := List.head?_eq_some_iff.mp hhead
        exact .inr ⟨rfl, by rw [hcs, bare_separator_cons]⟩
      · exact .inl (bare_of_head hhead).symm
  · have hkey := h
    rw [key_of_ne_constant hkind, key_of_ne_constant hkind, bare_of_isTrimmed hb] at hkey
    have hbare : IsTrimmed (bare a) := by
      have hlower : IsTrimmed (Text.lower b) := ⟨Text.head?_lower hb.1, Text.getLast?_lower hb.2⟩
      rw [← hkey] at hlower
      constructor
      · intro hhead
        obtain ⟨cs, hcs⟩ := List.head?_eq_some_iff.mp hhead
        exact hlower.1 (by rw [hcs, Text.lower_separator_cons, List.head?_cons])
      · intro hlast
        obtain ⟨cs, hcs⟩ := List.getLast?_eq_some_iff.mp hlast
        exact hlower.2 (by rw [hcs, Text.lower_append_separator, Text.lower_nil, List.getLast?_concat])
    refine ⟨bare a, hbare, ?_, .inl rfl⟩
    rw [← h, key_of_ne_constant hkind, key_of_ne_constant hkind, bare_of_isTrimmed hbare]

end Name

/-- No rule is a pattern. -/
def Whitelist.HasNoPatterns (w : Whitelist) : Prop := ∀ kind, w.patternsOf kind = []

namespace Whitelist

variable {w : Whitelist}

/-- A namespace is excluded in any case. -/
theorem excludesNamespace_congr (hw : w.HasNoPatterns) {a b : Text}
    (h : Text.lower a = Text.lower b) : w.excludesNamespace a = w.excludesNamespace b := by
  have hkey : namespaceKey a = namespaceKey b := by
    rw [namespaceKey, namespaceKey, Name.lower_trimmed, Name.lower_trimmed, h]
  have hnone : w.namespacePatterns = [] := hw .nameSpace
  simp only [excludesNamespace, hkey, hnone, List.any_nil]

/-- Rules without patterns exclude symbols by their keys. -/
theorem excludes_congr (hw : w.HasNoPatterns) {kind : SymbolKind} {a b : Text}
    (ha : Name.IsTrimmed a) (hb : Name.IsTrimmed b) (h : Name.key kind a = Name.key kind b) :
    w.excludes kind a = w.excludes kind b := by
  by_cases hkind : kind = .nameSpace
  · simp only [excludes, hkind, if_true]
    exact excludesNamespace_congr hw (Name.lower_eq_of_key_eq ha hb h)
  · have hspace := Name.lower_namespaceOf_of_key_eq ha hb h
    have hnil : Name.namespaceOf a = [] ↔ Name.namespaceOf b = [] := by
      rw [← Text.lower_eq_nil_iff, hspace, Text.lower_eq_nil_iff]
    simp only [excludes, if_neg hkind, h, hw kind, List.any_nil, ne_eq, hnil,
      excludesNamespace_congr hw hspace]

/-- Whether a symbol is exposed depends on whether its name is global. -/
theorem exposes_congr {kind : SymbolKind} {a b : Text} (h : Name.isGlobal a = Name.isGlobal b) :
    w.exposes kind a = w.exposes kind b := by
  rw [exposes, exposes, h]

end Whitelist

/-- Symbols are native by their keys. -/
theorem NativeSymbols.contains_congr {n : NativeSymbols} {kind : SymbolKind} {a b : Text}
    (ha : Name.IsTrimmed a) (hb : Name.IsTrimmed b) (h : Name.key kind a = Name.key kind b) :
    n.contains kind a = n.contains kind b := by
  cases kind with
  | nameSpace => rfl
  | classLike => rw [contains, contains, h]
  | function => rw [contains, contains, h]
  | constant =>
    rw [contains, contains, h, Name.bare_of_isTrimmed ha, Name.bare_of_isTrimmed hb,
      Name.lower_eq_of_key_eq ha hb h]

namespace Classifier

variable {c : Classifier} {kind : SymbolKind}

/-- Rules without patterns decide alike about names with one key. -/
theorem classify_congr (hw : c.whitelist.HasNoPatterns) {a b : Text} (ha : Name.IsTrimmed a)
    (hb : Name.IsTrimmed b) (h : Name.key kind a = Name.key kind b) :
    c.classify kind a = c.classify kind b := by
  have hglobal := Name.isGlobal_congr ha hb (Name.lower_eq_of_key_eq ha hb h)
  simp only [classify, Name.bare_of_isTrimmed ha, Name.bare_of_isTrimmed hb, hglobal,
    NativeSymbols.contains_congr ha hb h, Whitelist.excludes_congr hw ha hb h,
    Whitelist.exposes_congr hglobal]

/-- A second separator in front of a constant changes nothing. -/
theorem classify_constant_separator {name : Text} (h : Name.IsTrimmed name) {a : Text}
    (ha : Name.bare a = Name.separator :: name) :
    c.classify .constant a = c.classify .constant name := by
  have hbare := Name.bare_of_isTrimmed h
  have hkey : Name.key .constant (Name.separator :: name) = Name.key .constant name := by
    simp [Name.key, SymbolKind.caseSensitive, hbare]
  have hspace : Name.namespaceOf (Name.separator :: name) = Name.namespaceOf name := by
    simp [Name.namespaceOf, Name.split, hbare]
  have hglobal : Name.isGlobal (Name.separator :: name) = Name.isGlobal name := by
    simp [Name.isGlobal, hbare]
  have hkind : ¬SymbolKind.constant = .nameSpace := SymbolKind.noConfusion
  simp only [classify, ha, hbare, hglobal, NativeSymbols.contains, Name.bare_separator_cons, hkey,
    Whitelist.excludes, if_neg hkind, hspace, Whitelist.exposes]

/-- Rules without patterns decide alike about all spellings of a symbol of a named namespace. -/
theorem classify_of_key_eq (hw : c.whitelist.HasNoPatterns) {a b : Text} (hb : Name.IsTrimmed b)
    (hnamed : Name.isGlobal b = false) (h : Name.key kind a = Name.key kind b) :
    c.classify kind a = c.classify kind b := by
  obtain ⟨name, hname, hkey, hshape⟩ := Name.exists_isTrimmed_of_key_eq hb hnamed h
  rw [← classify_congr hw hname hb hkey]
  rcases hshape with hbare | ⟨rfl, hbare⟩
  · simp only [classify, hbare, Name.bare_of_isTrimmed hname]
  · exact classify_constant_separator hname hbare

end Classifier

namespace Name

variable {root : Text} {kind : SymbolKind} {a b : Text}

/-- With one spelling of a symbol, all are outside the prefix. -/
theorem isUnder_of_key_eq (hroot : IsRoot root) (hb : IsTrimmed b) (hnamed : isGlobal b = false)
    (h : key kind a = key kind b) (hunder : isUnder root b = false) : isUnder root a = false := by
  obtain ⟨name, hname, hkey, hshape⟩ := exists_isTrimmed_of_key_eq hb hnamed h
  rcases hshape with hbare | ⟨-, hbare⟩
  · rw [← hunder]
    simp only [isUnder, hbare, bare_of_isTrimmed hb, lower_eq_of_key_eq hname hb hkey]
  · have hhead := Text.head?_lower hroot.isTrimmed.1
    obtain ⟨d, ds, hlower⟩ := List.exists_cons_of_ne_nil
      (fun hnil => hroot.ne_nil (Text.lower_eq_nil_iff.mp hnil))
    rw [hlower, List.head?_cons] at hhead
    have hd : separator ≠ d := fun heq => hhead (congrArg some heq.symm)
    simp [isUnder, hbare, Text.lower_separator_cons, hlower, hd, hd.symm, List.isPrefixOf]

/-- All spellings of a symbol of a named namespace are moved to spellings of one symbol. -/
theorem key_relocate_of_key_eq (hroot : IsRoot root) (hb : IsTrimmed b)
    (hnamed : isGlobal b = false) (h : key kind a = key kind b) :
    key kind (relocate root a) = key kind (relocate root b) := by
  obtain ⟨name, hname, hkey, hshape⟩ := exists_isTrimmed_of_key_eq hb hnamed h
  have htrimmed : trimmed a = trimmed name := by
    rw [← trimmed_bare]
    rcases hshape with hbare | ⟨-, hbare⟩
    · rw [hbare]
    · rw [hbare, trimmed_separator_cons]
  have hmoved : relocate root a = relocate root name := by
    rw [relocate_eq_beside hroot, relocate_eq_beside hroot, htrimmed]
  rw [hmoved]
  exact key_relocate_congr hroot (fun _ => hname) (fun _ => hb) hkey

end Name

end PhpPrefixer
