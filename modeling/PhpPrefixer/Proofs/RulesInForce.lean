import Mathlib.Data.Char
import Mathlib.Data.List.Lex
import Mathlib.Data.List.Sort
import PhpPrefixer.WhitelistFields

/-!
# Rules in force

What the rules in force are made of. An entry for classes that ends in a star stands for a namespace
(`starred?_eq_some_iff`). Keys are held as sorted sets, and a sorted set has the members of the list it is
made from and depends on nothing else (`mem_sortedSet`, `sortedSet_congr`). Rules are accepted as soon as
their patterns can be read: `Whitelist.ofOptions_of_patterns`.
-/

namespace PhpPrefixer

namespace WhitelistOptions

/-- The entries that are no patterns, for a kind. -/
def entriesOf (o : WhitelistOptions) : SymbolKind → List Text
  | .nameSpace => o.excludedNamespaces
  | .classLike => o.classes
  | .function => o.functions
  | .constant => o.constants

/-- The patterns for a kind. -/
def patternsOf (o : WhitelistOptions) : SymbolKind → List Text
  | .nameSpace => o.namespacePatterns
  | .classLike => o.classPatterns
  | .function => o.functionPatterns
  | .constant => o.constantPatterns

/-- The ending by which an entry for classes stands for a namespace. -/
def starEnding : Text := [Name.separator, '*']

end WhitelistOptions

namespace Whitelist

open WhitelistOptions

/-- An entry stands for the namespace in front of its ending. -/
theorem starred?_eq_some_iff {entry space : Text} :
    starred? entry = some space ↔ entry = space ++ starEnding := by
  have hreverse : entry = space ++ starEnding ↔ entry.reverse = '*' :: '\\' :: space.reverse := by
    rw [← List.reverse_inj]
    simp [starEnding, Name.separator]
  rw [hreverse, starred?]
  split
  · next rest hentry => simp [hentry, List.reverse_eq_iff]
  · next hother =>
    constructor
    · intro h
      cases h
    · intro h
      exact absurd h (hother _)

/-- An entry without the ending stands for no namespace. -/
theorem starred?_eq_none_iff {entry : Text} : starred? entry = none ↔ ¬starEnding <:+ entry := by
  rw [Option.eq_none_iff_forall_ne_some]
  constructor
  · rintro h ⟨space, hspace⟩
    exact h space (starred?_eq_some_iff.mpr hspace.symm)
  · intro h space hspace
    exact h ⟨space, (starred?_eq_some_iff.mp hspace).symm⟩

/-- A member is put into a sorted list besides those that are there. -/
theorem mem_insertSorted {t u : Text} {us : List Text} :
    t ∈ insertSorted u us ↔ t = u ∨ t ∈ us := by
  induction us with
  | nil => simp [insertSorted]
  | cons v vs ih =>
    rw [insertSorted]
    split
    · exact List.mem_cons
    · split
      · next huv => simp [huv]
      · rw [List.mem_cons, List.mem_cons, ih]
        exact or_left_comm

/-- A sorted set has the members of the list it is made from. -/
theorem mem_sortedSet {t : Text} {ts : List Text} : t ∈ sortedSet ts ↔ t ∈ ts := by
  induction ts with
  | nil => rfl
  | cons u us ih =>
    have hstep : sortedSet (u :: us) = insertSorted u (sortedSet us) := rfl
    rw [hstep, mem_insertSorted, ih, List.mem_cons]

/-- A list that increases goes on doing so when a member is put in. -/
theorem pairwise_insertSorted {us : List Text} (h : us.Pairwise (· < ·)) (t : Text) :
    (insertSorted t us).Pairwise (· < ·) := by
  induction us with
  | nil => exact List.pairwise_singleton _ _
  | cons u us ih =>
    obtain ⟨hu, hus⟩ := List.pairwise_cons.mp h
    rw [insertSorted]
    split
    · next htu =>
      refine List.pairwise_cons.mpr ⟨fun v hv => ?_, h⟩
      obtain rfl | hv := List.mem_cons.mp hv
      · exact htu
      · exact List.lt_trans htu (hu v hv)
    · next htu =>
      split
      · exact h
      · next hne =>
        refine List.pairwise_cons.mpr ⟨fun v hv => ?_, ih hus⟩
        obtain rfl | hv := mem_insertSorted.mp hv
        · exact lt_of_le_of_ne (not_lt.mp htu) (Ne.symm hne)
        · exact hu v hv

/-- A sorted set increases. -/
theorem pairwise_sortedSet (ts : List Text) : (sortedSet ts).Pairwise (· < ·) := by
  induction ts with
  | nil => exact List.Pairwise.nil
  | cons t ts ih => exact pairwise_insertSorted ih t

/-- A sorted set depends on its members only. -/
theorem sortedSet_congr {ts us : List Text} (h : ∀ t, t ∈ ts ↔ t ∈ us) :
    sortedSet ts = sortedSet us :=
  (pairwise_sortedSet ts).eq_of_mem_iff (pairwise_sortedSet us) fun t => by
    rw [mem_sortedSet, mem_sortedSet, h]

/-- Forms that are their own forms, as a sorted set, are brought into form without a change. -/
theorem sortedSet_map_sortedSet {form : Text → Text} {ts : List Text}
    (h : ∀ t ∈ ts, form (form t) = form t) :
    sortedSet ((sortedSet (ts.map form)).map form) = sortedSet (ts.map form) := by
  have hmem : ∀ t, t ∈ (sortedSet (ts.map form)).map form ↔ t ∈ ts.map form := by
    intro t
    simp only [List.mem_map, mem_sortedSet]
    constructor
    · rintro ⟨u, ⟨v, hv, rfl⟩, rfl⟩
      exact ⟨v, hv, (h v hv).symm⟩
    · rintro ⟨v, hv, rfl⟩
      exact ⟨form v, ⟨v, hv, rfl⟩, h v hv⟩
  exact sortedSet_congr hmem

/-- The rules in force, when it is known what the patterns are read as. -/
def ofParts (o : WhitelistOptions) (patterns : SymbolKind → List Pattern) : Whitelist where
  excludedNamespaces :=
    sortedSet ((o.excludedNamespaces ++ o.classes.filterMap starred?).map namespaceKey)
  namespacePatterns := patterns .nameSpace
  classes := sortedSet ((o.classes.filter fun entry => (starred? entry).isNone).map
    (Name.key .classLike))
  classPatterns := patterns .classLike
  functions := sortedSet (o.functions.map (Name.key .function))
  functionPatterns := patterns .function
  constants := sortedSet (o.constants.map (Name.key .constant))
  constantPatterns := patterns .constant
  exposeGlobalClasses := o.exposeGlobalClasses
  exposeGlobalFunctions := o.exposeGlobalFunctions
  exposeGlobalConstants := o.exposeGlobalConstants

/-- Rules are accepted as soon as their patterns can be read. -/
theorem ofOptions_of_patterns {d : Dialect} {o : WhitelistOptions} {patterns : SymbolKind → List Pattern}
    (h : ∀ kind, (o.patternsOf kind).mapM d.read = .ok (patterns kind)) :
    ofOptions o d = .ok (ofParts o patterns) := by
  have hspaces : o.namespacePatterns.mapM d.read = .ok (patterns .nameSpace) := h .nameSpace
  have hclasses : o.classPatterns.mapM d.read = .ok (patterns .classLike) := h .classLike
  have hfunctions : o.functionPatterns.mapM d.read = .ok (patterns .function) := h .function
  have hconstants : o.constantPatterns.mapM d.read = .ok (patterns .constant) := h .constant
  rw [ofOptions, hspaces, hclasses, hfunctions, hconstants]
  rfl

end Whitelist

end PhpPrefixer
