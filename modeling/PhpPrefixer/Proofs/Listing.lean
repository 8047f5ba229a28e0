import Mathlib.Data.Char
import Mathlib.Data.List.Lex
import Mathlib.Data.Prod.Lex
import PhpPrefixer.Proofs.RecordedRenames
import PhpPrefixer.Proofs.StableSort

/-!
# The order in which renames are listed

Renames are recorded in the order in which files come to them, and are listed sorted by their kind and then
by the lower-cased name before. For namespaces, classes and functions this separates what the registry tells
apart (`Rename.key_eq_of_tied`), so their listing does not depend on the order of recording. Constants are
told apart by the letter case of their short names too. Those that differ in nothing else are ties of the
listing and stay in the order in which they were recorded, and nothing else of that order is left:
`Registry.listing_of_permuted`.
-/

namespace PhpPrefixer

namespace Rename

/-- What renames are sorted by: the word for the kind, then the lower-cased name before. -/
def rank (r : Rename) : Text ×ₗ Text := toLex (r.kind.word.toList, Text.lower r.name)

/-- Whether this is a rename of a constant with a name that reads so in lower case. -/
def isConstantLike (lowered : Text) (r : Rename) : Bool :=
  r.kind = .constant && Text.lower r.name = lowered

variable {a b : Rename}

/-- Renames are listed by their ranks. -/
theorem listedBefore_iff : a.listedBefore b = true ↔ a.rank ≤ b.rank := by
  simp [listedBefore, rank, Prod.Lex.le_iff]

/-- The order of the listing is transitive. -/
theorem listedBefore_trans (a b c : Rename) (hab : a.listedBefore b = true)
    (hbc : b.listedBefore c = true) : a.listedBefore c = true := by
  rw [listedBefore_iff] at hab hbc ⊢
  exact hab.trans hbc

/-- Of two renames, one can be listed before the other. -/
theorem listedBefore_total (a b : Rename) : (a.listedBefore b || b.listedBefore a) = true := by
  rw [Bool.or_eq_true, listedBefore_iff, listedBefore_iff]
  exact le_total a.rank b.rank

/-- Different kinds have different words. -/
theorem word_toList_inj {kind other : SymbolKind} :
    kind.word.toList = other.word.toList ↔ kind = other := by
  refine ⟨fun h => ?_, fun h => h ▸ rfl⟩
  have hfound := SymbolKind.ofWord?_word kind
  rw [String.toList_injective h, SymbolKind.ofWord?_word] at hfound
  exact (Option.some_inj.mp hfound).symm

/-- A rename is listed before another one by the word for its kind, or else by its name in lower case. -/
theorem ranked_of_listedBefore (h : a.listedBefore b = true) :
    a.kind.word.toList < b.kind.word.toList
      ∨ (a.kind = b.kind ∧ Text.lower a.name ≤ Text.lower b.name) := by
  simpa [rank, Prod.Lex.le_iff, word_toList_inj] using listedBefore_iff.mp h

/-- Renames are ties if they are of one kind and of names that differ in letter case only. -/
theorem tied_listedBefore_iff :
    tied listedBefore a b = true ↔ a.kind = b.kind ∧ Text.lower a.name = Text.lower b.name := by
  rw [tied_iff, listedBefore_iff, listedBefore_iff, ← le_antisymm_iff, rank, rank, toLex_inj, Prod.mk.injEq,
    word_toList_inj]

/-- Ties that are no constants are renames of one symbol. -/
theorem key_eq_of_tied (h : tied listedBefore a b = true) (hkind : a.kind ≠ .constant) :
    a.key = b.key := by
  obtain ⟨hsame, hlower⟩ := tied_listedBefore_iff.mp h
  rw [key, key, ← hsame, Name.key_of_ne_constant hkind, Name.key_of_ne_constant hkind, Name.lower_bare,
    Name.lower_bare, hlower]

/-- Constants are tied if they read alike in lower case. -/
theorem tied_constant (h : a.kind = .constant) :
    tied listedBefore a = isConstantLike (Text.lower a.name) := by
  funext b
  rw [Bool.eq_iff_iff, tied_listedBefore_iff, isConstantLike, Bool.and_eq_true, decide_eq_true_eq,
    decide_eq_true_eq, h, eq_comm, eq_comm (a := Text.lower a.name)]

end Rename

namespace Registry

open Rename

variable {g : Registry} {rs rs' : List Rename}

/-- The listing is sorted. -/
theorem pairwise_all (g : Registry) : g.all.Pairwise fun a b => a.listedBefore b = true :=
  List.pairwise_mergeSort listedBefore_trans listedBefore_total g.records

/-- Renames of different symbols that have none are all added, in their order. -/
theorem recordAll_of_new (hnodup : (rs.map fun r => r.bare.key).Nodup)
    (hnew : ∀ r ∈ rs, g.findKey? r.bare.key = none) :
    g.recordAll rs = (⟨g.records ++ rs.map Rename.bare⟩, none) := by
  induction rs generalizing g with
  | nil => simp [recordAll]
  | cons r rs ih =>
    rw [List.map_cons, List.nodup_cons] at hnodup
    obtain ⟨hr, hrs⟩ := List.forall_mem_cons.mp hnew
    have hrecord := record_of_new hr
    have hothers : ∀ s ∈ rs, findKey? ⟨g.records ++ [r.bare]⟩ s.bare.key = none := by
      intro s hs
      have hne : r.bare.key ≠ s.bare.key := fun heq =>
        hnodup.1 (List.mem_map.mpr ⟨s, hs, heq.symm⟩)
      rw [findKey?_record hrecord, hrs s hs, if_neg hne, Option.none_or]
    rw [recordAll_cons_of_ok hrecord, ih hnodup.2 hothers]
    simp

/-- Renames of different symbols are all recorded in the empty registry. -/
theorem recordAll_empty (hnodup : (rs.map fun r => r.bare.key).Nodup) :
    empty.recordAll rs = (⟨rs.map Rename.bare⟩, none) :=
  recordAll_of_new hnodup fun _ _ => rfl

/-- Lists with at most one entry are equal if they have the same entries. -/
theorem eq_of_perm_of_pairwise_false {l l' : List Rename} (hperm : l.Perm l')
    (h : l.Pairwise fun _ _ => False) : l = l' :=
  hperm.eq_of_pairwise (fun _ _ _ _ hab => hab.elim) h (hperm.pairwise h fun hab => hab.elim)

/-- Where each symbol is there once, ties that are no constants are equal. -/
theorem eq_of_tied (hnodup : (rs.map Rename.key).Nodup) {a b : Rename} (ha : a ∈ rs) (hb : b ∈ rs)
    (h : tied listedBefore a b = true) (hkind : a.kind ≠ .constant) : a = b :=
  List.inj_on_of_nodup_map hnodup ha hb (key_eq_of_tied h hkind)

/-- Renames of different symbols are listed alike just if the constants whose names differ in letter case
only were recorded in the same order. -/
theorem all_eq_all_iff (hnodup : (rs.map Rename.key).Nodup) (hperm : rs.Perm rs') :
    all ⟨rs⟩ = all ⟨rs'⟩ ↔ ∀ t, rs.filter (isConstantLike t) = rs'.filter (isConstantLike t) := by
  rw [all, all, mergeSort_eq_mergeSort_iff listedBefore_trans listedBefore_total]
  constructor
  · intro hgroups t
    cases hconstants : rs.filter (isConstantLike t) with
    | nil => exact (List.nil_perm.mp (hconstants ▸ hperm.filter (isConstantLike t))).symm
    | cons a others =>
      have ha : isConstantLike t a = true := (List.mem_filter.mp (hconstants ▸ List.mem_cons_self)).2
      obtain ⟨hkind, rfl⟩ : a.kind = .constant ∧ Text.lower a.name = t := by
        simpa [isConstantLike] using ha
      rw [← hconstants, ← tied_constant hkind, hgroups a]
  · intro hconstants a
    by_cases hkind : a.kind = .constant
    · rw [tied_constant hkind, hconstants]
    · have hgroup : (rs.filter (tied listedBefore a)).Pairwise fun _ _ => False := by
        refine List.pairwise_filter.mpr ((List.pairwise_map.mp hnodup).imp fun hne hab hac => ?_)
        exact hne ((key_eq_of_tied hab hkind).symm.trans (key_eq_of_tied hac hkind))
      exact eq_of_perm_of_pairwise_false (hperm.filter _) hgroup

/-- Renames of different symbols are listed alike, but for the constants. -/
theorem ofKind_eq_ofKind (hnodup : (rs.map Rename.key).Nodup) (hperm : rs.Perm rs') {kind : SymbolKind}
    (hkind : kind ≠ .constant) : ofKind ⟨rs⟩ kind = ofKind ⟨rs'⟩ kind := by
  have hall : (all ⟨rs⟩).Perm (all ⟨rs'⟩) := (perm_all _).trans (hperm.trans (perm_all _).symm)
  refine (hall.filter _).eq_of_pairwise ?_ ((pairwise_all _).filter _) ((pairwise_all _).filter _)
  intro a b ha hb hab hba
  obtain ⟨hmemA, hkindA⟩ := List.mem_filter.mp ha
  have hmemB := hall.mem_iff.mpr (List.mem_filter.mp hb).1
  exact eq_of_tied hnodup ((perm_all _).mem_iff.mp hmemA) ((perm_all _).mem_iff.mp hmemB)
    (tied_iff.mpr ⟨hab, hba⟩) (of_decide_eq_true hkindA ▸ hkind)

/-- Renames of different symbols are recorded one after the other, in two orders. None of them is refused,
and each of the two registries lists all of them, sorted by the word for the kind and then by the lower-cased
name before. The listings are equal just if constants whose names differ in letter case only were recorded in
the same order; so they are equal if there are no such constants, and the listings of each other kind are
equal in any case. -/
theorem listing_of_permuted (hkeys : (rs.map fun r => r.bare.key).Nodup) (hperm : rs.Perm rs') :
    (empty.recordAll rs).2 = none ∧ (empty.recordAll rs').2 = none ∧
    (∀ order ∈ [rs, rs'], (empty.recordAll order).1.all.Perm (rs.map Rename.bare)
      ∧ (empty.recordAll order).1.all.Pairwise fun a b =>
        a.kind.word.toList < b.kind.word.toList
          ∨ (a.kind = b.kind ∧ Text.lower a.name ≤ Text.lower b.name)) ∧
    ((empty.recordAll rs).1.all = (empty.recordAll rs').1.all
      ↔ ∀ t, (rs.map Rename.bare).filter (isConstantLike t)
        = (rs'.map Rename.bare).filter (isConstantLike t)) ∧
    ((rs.Pairwise fun a b => a.kind = .constant → b.kind = .constant →
        Text.lower a.bare.name ≠ Text.lower b.bare.name) →
      (empty.recordAll rs).1.all = (empty.recordAll rs').1.all) ∧
    ∀ kind, kind ≠ .constant →
      (empty.recordAll rs).1.ofKind kind = (empty.recordAll rs').1.ofKind kind := by
  have hkeys' : (rs'.map fun r => r.bare.key).Nodup := (hperm.map _).nodup_iff.mp hkeys
  have hbare : ((rs.map Rename.bare).map Rename.key).Nodup := by rwa [List.map_map]
  have hsame := hperm.map Rename.bare
  rw [recordAll_empty hkeys, recordAll_empty hkeys']
  refine ⟨rfl, rfl, ?_, all_eq_all_iff hbare hsame, ?_, fun kind => ofKind_eq_ofKind hbare hsame⟩
  · intro order horder
    have hrecorded : (empty.recordAll order).1 = ⟨order.map Rename.bare⟩
        ∧ (order.map Rename.bare).Perm (rs.map Rename.bare) := by
      rcases List.mem_pair.mp horder with rfl | rfl
      · exact ⟨by rw [recordAll_empty hkeys], .rfl⟩
      · exact ⟨by rw [recordAll_empty hkeys'], hsame.symm⟩
    rw [hrecorded.1]
    exact ⟨(perm_all _).trans hrecorded.2, (pairwise_all _).imp ranked_of_listedBefore⟩
  · intro hapart
    rw [all_eq_all_iff hbare hsame]
    intro t
    have hgroup : ((rs.map Rename.bare).filter (isConstantLike t)).Pairwise fun _ _ => False := by
      refine List.pairwise_filter.mpr (List.pairwise_map.mpr (hapart.imp fun hne ha hb => ?_))
      simp only [isConstantLike, Bool.and_eq_true, decide_eq_true_eq] at ha hb
      exact hne ha.1 hb.1 (ha.2.trans hb.2.symm)
    exact eq_of_perm_of_pairwise_false (hsame.filter _) hgroup

/-- A rename of a constant. -/
def constantRename (name renamed : String) : Rename := ⟨name.toList, renamed.toList, .constant, none⟩

/-- Two constants whose names differ in letter case only, and a class. -/
def limitsAndZed : List Rename :=
  [constantRename "LIMIT" "Humbug\\LIMIT", classRename "\\Acme\\Zed" "Humbug\\Acme\\Zed",
    constantRename "Limit" "Humbug\\Limit"]

/-- The same, with the class recorded first. -/
def zedAndLimits : List Rename :=
  [classRename "\\Acme\\Zed" "Humbug\\Acme\\Zed", constantRename "LIMIT" "Humbug\\LIMIT",
    constantRename "Limit" "Humbug\\Limit"]

/-- A class may be recorded before or between constants that differ in letter case only. -/
theorem listing_of_permuted_classMoved :
    (limitsAndZed.map fun r => r.bare.key).Nodup ∧ limitsAndZed.Perm zedAndLimits
      ∧ (empty.recordAll limitsAndZed).1.all = (empty.recordAll zedAndLimits).1.all := by
  have hkeys : (limitsAndZed.map fun r => r.bare.key).Nodup := by decide +kernel
  have hperm : limitsAndZed.Perm zedAndLimits := .swap _ _ _
  obtain ⟨-, -, -, halike, -⟩ := listing_of_permuted hkeys hperm
  refine ⟨hkeys, hperm, halike.mpr fun t => ?_⟩
  have hclass : isConstantLike t (classRename "\\Acme\\Zed" "Humbug\\Acme\\Zed").bare = false := rfl
  simp [limitsAndZed, zedAndLimits, List.filter_cons, hclass]

/-- Two constants whose names differ in letter case only are different symbols, and are listed in the order in
which they were recorded. -/
theorem listing_of_caseVariants :
    let upper := constantRename "LIMIT" "Humbug\\LIMIT"
    let mixed := constantRename "Limit" "Humbug\\Limit"
    ([upper, mixed].map fun r => r.bare.key).Nodup ∧ [upper, mixed].Perm [mixed, upper]
      ∧ (empty.recordAll [upper, mixed]).1.all = [upper, mixed]
      ∧ (empty.recordAll [mixed, upper]).1.all = [mixed, upper]
      ∧ (empty.recordAll [upper, mixed]).1.all ≠ (empty.recordAll [mixed, upper]).1.all := by
  intro upper mixed
  have hfirst : (empty.recordAll [upper, mixed]).1.all = [upper, mixed] := by
    rw [recordAll_empty (by decide +kernel)]
    exact List.mergeSort_of_pairwise (by decide +kernel)
  have hsecond : (empty.recordAll [mixed, upper]).1.all = [mixed, upper] := by
    rw [recordAll_empty (by decide +kernel)]
    exact List.mergeSort_of_pairwise (by decide +kernel)
  refine ⟨by decide +kernel, .swap _ _ _, hfirst, hsecond, ?_⟩
  rw [hfirst, hsecond]
  decide +kernel

end Registry

end PhpPrefixer
