import Mathlib.Data.List.Nodup
import PhpPrefixer.Proofs.NameAlgebra
import PhpPrefixer.Registry

/-!
# Recorded renames

What a registry holds after a rename was recorded, after some of them were, and after a call that may have
been refused. Renames are only added (`Registry.exists_added_recordAll`), and each symbol has the first of
the renames that were tried for it, and no other: this is `Registry.Reflects`, which a rename keeps whether
it is recorded or refused.

The names are written with at most one separator in front. With more of them the symbol under which a
rename is kept is not the one under which it is asked for, as only one separator is taken away at a
time.
-/

namespace PhpPrefixer

namespace Rename

/-- At most one separator stands in front of each of the two names. -/
structure IsSinglyLed (r : Rename) : Prop where
  /-- The name before. -/
  name : Name.IsSinglyLed r.name
  /-- The name after. -/
  renamed : Name.IsSinglyLed r.renamed

instance (r : Rename) : Decidable r.IsSinglyLed :=
  decidable_of_iff (Name.IsSinglyLed r.name ∧ Name.IsSinglyLed r.renamed)
    ⟨fun h => ⟨h.1, h.2⟩, fun h => ⟨h.name, h.renamed⟩⟩

variable {r : Rename}

/-- Without its separators in front, a rename has none left there. -/
theorem IsSinglyLed.bare (h : r.IsSinglyLed) : r.bare.IsSinglyLed := ⟨h.name.bare, h.renamed.bare⟩

/-- Separators in front do not change the symbol of a rename. -/
theorem IsSinglyLed.key_bare (h : r.IsSinglyLed) : r.bare.key = r.key := by
  simp only [key, Rename.bare, h.name.key_bare]

/-- Separators in front do not change the target of a rename. -/
theorem IsSinglyLed.target_bare (h : r.IsSinglyLed) : r.bare.target = r.target := by
  simp only [target, Rename.bare, h.renamed.key_bare]

end Rename

namespace Registry

/-- A rename of a class that is recorded outside of any file. -/
def classRename (name renamed : String) : Rename := ⟨name.toList, renamed.toList, .classLike, none⟩

/-- What the symbol with this key is renamed to, as targets are compared. -/
def target? (g : Registry) (key : SymbolKind × Text) : Option Text :=
  (g.findKey? key).map Rename.target

variable {g g' : Registry} {r : Rename} {calls : List Rename}

/-- The registry lists what it holds. -/
theorem perm_all (g : Registry) : g.all.Perm g.records := List.mergeSort_perm g.records _

/-- A rename behind others is found where these have nothing. -/
theorem findKey?_concat (records : List Rename) (r : Rename) (key : SymbolKind × Text) :
    (Registry.mk (records ++ [r])).findKey? key
      = ((Registry.mk records).findKey? key).or (if r.key = key then some r else none) := by
  simp only [findKey?, List.find?_append, List.find?_singleton, decide_eq_true_eq]

/-- What is found under a symbol is one of the renames, and of this symbol. -/
theorem mem_of_findKey? {key : SymbolKind × Text} (h : g.findKey? key = some r) :
    r ∈ g.records ∧ r.key = key := by
  have hkey := List.find?_some h
  exact ⟨List.mem_of_find?_eq_some h, of_decide_eq_true hkey⟩

/-- A rename is recorded because its symbol is new, or because the symbol has one with this target. -/
theorem record_eq_ok (h : g.record r = .ok g') :
    (g.findKey? r.bare.key = none ∧ g' = ⟨g.records ++ [r.bare]⟩) ∨
    ∃ old, g.findKey? r.bare.key = some old ∧ old.target = r.bare.target ∧ g' = g := by
  cases hfind : g.findKey? r.bare.key with
  | none => exact .inl ⟨rfl, (Except.ok.inj ((record_of_new hfind).symm.trans h)).symm⟩
  | some old =>
    by_cases htarget : old.target = r.bare.target
    · have heq := (record_of_confirmed hfind htarget).symm.trans h
      exact .inr ⟨old, rfl, htarget, (Except.ok.inj heq).symm⟩
    · exact nomatch (record_of_contradicted hfind htarget).symm.trans h

/-- A rename is refused just if its symbol has one with another target. -/
theorem record_eq_error_iff (g : Registry) (r : Rename) :
    (∃ c, g.record r = .error c) ↔
      ∃ old, g.findKey? r.bare.key = some old ∧ old.target ≠ r.bare.target := by
  constructor
  · rintro ⟨c, hc⟩
    cases hfind : g.findKey? r.bare.key with
    | none => exact nomatch (record_of_new hfind).symm.trans hc
    | some old =>
      refine ⟨old, rfl, fun htarget => ?_⟩
      exact nomatch (record_of_confirmed hfind htarget).symm.trans hc
  · rintro ⟨old, hfind, htarget⟩
    exact ⟨_, record_of_contradicted hfind htarget⟩

/-- After a rename that is not refused, its symbol has one with this target. -/
theorem exists_of_record (h : g.record r = .ok g') :
    ∃ held, g'.findKey? r.bare.key = some held ∧ held.target = r.bare.target := by
  obtain ⟨hnone, rfl⟩ | ⟨old, hold, htarget, rfl⟩ := record_eq_ok h
  · refine ⟨r.bare, ?_, rfl⟩
    rw [findKey?_concat, show Registry.mk g.records = g from rfl, hnone, if_pos rfl]
    rfl
  · exact ⟨old, hold, htarget⟩

/-- The rename of a symbol is not changed by those that are added. -/
theorem findKey?_of_prefix (h : g.records <+: g'.records) {key : SymbolKind × Text}
    (hfind : g.findKey? key = some r) : g'.findKey? key = some r := by
  obtain ⟨added, hadded⟩ := h
  rw [findKey?, ← hadded, List.find?_append, show g.records.find? _ = some r from hfind]
  rfl

/-- Recording a rename keeps those that are there. -/
theorem prefix_of_record (h : g.record r = .ok g') : g.records <+: g'.records := by
  obtain ⟨-, rfl⟩ | ⟨old, -, -, rfl⟩ := record_eq_ok h
  · exact List.prefix_append ..
  · exact List.prefix_refl _

/-- Renames are only added, after those that are there and in the order in which they are given, and only
for symbols that had none. -/
theorem exists_added_recordAll (g : Registry) (rs : List Rename) :
    ∃ added, (g.recordAll rs).1.records = g.records ++ added ∧
      added.Sublist (rs.map Rename.bare) ∧ ∀ r ∈ added, g.findKey? r.key = none := by
  induction rs generalizing g with
  | nil => exact ⟨[], (List.append_nil _).symm, List.Sublist.slnil, List.forall_mem_nil _⟩
  | cons r rs ih =>
    rw [recordAll]
    cases h : g.record r with
    | error c =>
      exact ⟨[], (List.append_nil _).symm, List.nil_sublist _, List.forall_mem_nil _⟩
    | ok g' =>
      obtain ⟨added, hrecords, hsub, hnew⟩ := ih g'
      have hnone : ∀ s ∈ added, g.findKey? s.key = none := fun s hs =>
        Option.eq_none_iff_forall_ne_some.mpr fun old hold =>
          Option.ne_none_iff_exists'.mpr ⟨old, findKey?_of_prefix (prefix_of_record h) hold⟩
            (hnew s hs)
      obtain ⟨hkey, rfl⟩ | ⟨old, -, -, rfl⟩ := record_eq_ok h
      · refine ⟨r.bare :: added, ?_, hsub.cons_cons _, List.forall_mem_cons.mpr ⟨hkey, hnone⟩⟩
        rw [hrecords, List.append_assoc, List.singleton_append]
      · exact ⟨added, hrecords, hsub.cons _, hnone⟩

/-- Recording several renames keeps those that are there. -/
theorem prefix_recordAll (g : Registry) (rs : List Rename) :
    g.records <+: (g.recordAll rs).1.records := by
  obtain ⟨added, hrecords, -⟩ := exists_added_recordAll g rs
  exact ⟨added, hrecords.symm⟩

/-- The renames that are tried when some are to be recorded: all, or those up to the first that is
refused. -/
def tried (g : Registry) : List Rename → List Rename
  | [] => []
  | r :: rs =>
    match g.record r with
    | .ok g' => r :: g'.tried rs
    | .error _ => [r]

/-- A registry stays as it is just if every rename that is tried is of a symbol that has one. -/
theorem recordAll_eq_self_iff (g : Registry) (rs : List Rename) :
    (g.recordAll rs).1 = g ↔ ∀ r ∈ g.tried rs, g.isNew r = false := by
  induction rs with
  | nil => exact ⟨fun _ => List.forall_mem_nil _, fun _ => rfl⟩
  | cons r rs ih =>
    rw [recordAll, tried]
    cases h : g.record r with
    | error c =>
      obtain ⟨old, hold, -⟩ := (record_eq_error_iff g r).mp ⟨c, h⟩
      simp [isNew, hold]
    | ok g' =>
      obtain ⟨hkey, rfl⟩ | ⟨old, hold, -, rfl⟩ := record_eq_ok h
      · have hne : (recordAll ⟨g.records ++ [r.bare]⟩ rs).1 ≠ g := fun heq => by
          have hlength := (prefix_recordAll ⟨g.records ++ [r.bare]⟩ rs).length_le
          rw [heq, List.length_append, List.length_singleton] at hlength
          omega
        simp [hne, isNew, hkey]
      · simp [ih, isNew, hold]

/-- The registry holds what some renames lead to that were tried one after the other. -/
structure Reflects (g : Registry) (calls : List Rename) : Prop where
  /-- No symbol is there twice. -/
  nodup : (g.records.map Rename.key).Nodup
  /-- A symbol has the first rename tried for it. -/
  first : ∀ key, g.findKey? key = (calls.find? fun r => r.key = key).map Rename.bare
  /-- The names can be asked for as they were given. -/
  singlyLed : ∀ r ∈ calls, r.IsSinglyLed

/-- The empty registry is what no call leads to. -/
theorem reflects_empty : empty.Reflects [] where
  nodup := List.nodup_nil
  first _ := rfl
  singlyLed _ h := absurd h List.not_mem_nil

namespace Reflects

/-- The first call about a symbol among some calls and a last one is the first among the earlier ones, or
else the last one. -/
theorem find?_concat {key : SymbolKind × Text} :
    (calls ++ [r]).find? (fun c => c.key = key)
      = (calls.find? fun c => c.key = key).or (if r.key = key then some r else none) :=
  findKey?_concat calls r key

/-- A rename of a symbol that has one does not become its first. -/
theorem concat_of_some (h : g.Reflects calls) (hr : r.IsSinglyLed) {old : Rename}
    (hold : g.findKey? r.key = some old) : g.Reflects (calls ++ [r]) where
  nodup := h.nodup
  first key := by
    rw [h.first, find?_concat]
    cases hfirst : calls.find? (fun c => c.key = key) with
    | some first => rfl
    | none =>
      have hne : r.key ≠ key := by
        rintro rfl
        rw [h.first, hfirst] at hold
        exact nomatch hold
      rw [if_neg hne]
      rfl
  singlyLed := List.forall_mem_append.mpr ⟨h.singlyLed, List.forall_mem_singleton.mpr hr⟩

/-- A rename of a symbol that has none becomes its first. -/
theorem concat_of_none (h : g.Reflects calls) (hr : r.IsSinglyLed) (hnone : g.findKey? r.key = none) :
    (Registry.mk (g.records ++ [r.bare])).Reflects (calls ++ [r]) where
  nodup := by
    rw [List.map_append, List.map_singleton, List.nodup_append]
    refine ⟨h.nodup, List.nodup_singleton _, ?_⟩
    rintro _ hmem _ hlast rfl
    rw [List.mem_singleton, hr.key_bare] at hlast
    obtain ⟨old, hold, hkey⟩ := List.mem_map.mp hmem
    exact of_decide_eq_false (by simpa using List.find?_eq_none.mp hnone old hold) (hkey.trans hlast)
  first key := by
    rw [findKey?_concat, hr.key_bare, find?_concat, show Registry.mk g.records = g from rfl, h.first]
    cases calls.find? (fun c => c.key = key) with
    | some first => rfl
    | none => by_cases hkey : r.key = key <;> simp [hkey]
  singlyLed := List.forall_mem_append.mpr ⟨h.singlyLed, List.forall_mem_singleton.mpr hr⟩

/-- A rename that is recorded is one more call. -/
theorem record (h : g.Reflects calls) (hr : r.IsSinglyLed) (hrecord : g.record r = .ok g') :
    g'.Reflects (calls ++ [r]) := by
  obtain ⟨hnone, rfl⟩ | ⟨old, hold, -, rfl⟩ := record_eq_ok hrecord
  · exact h.concat_of_none hr (hr.key_bare ▸ hnone)
  · exact h.concat_of_some hr (hr.key_bare ▸ hold)

/-- A rename that is refused is one more call as well. -/
theorem refused (h : g.Reflects calls) (hr : r.IsSinglyLed) {c : Conflict}
    (hrecord : g.record r = .error c) : g.Reflects (calls ++ [r]) := by
  obtain ⟨old, hold, -⟩ := (record_eq_error_iff g r).mp ⟨c, hrecord⟩
  exact h.concat_of_some hr (hr.key_bare ▸ hold)

/-- Renames that are recorded in turn are as many calls as were tried. -/
theorem recordAll {rs : List Rename} (h : g.Reflects calls) (hrs : ∀ r ∈ rs, r.IsSinglyLed) :
    (g.recordAll rs).1.Reflects (calls ++ g.tried rs) := by
  induction rs generalizing g calls with
  | nil => exact (List.append_nil calls).symm ▸ h
  | cons r rs ih =>
    obtain ⟨hr, hrs⟩ := List.forall_mem_cons.mp hrs
    rw [Registry.recordAll, tried]
    cases hrecord : g.record r with
    | ok g' =>
      have hrest := ih (h.record hr hrecord) hrs
      rwa [List.append_assoc] at hrest
    | error c => exact h.refused hr hrecord

/-- Each rename is found under the symbol it renames. -/
theorem findKey?_key (h : g.Reflects calls) (hr : r ∈ g.records) : g.findKey? r.key = some r := by
  have hsome : (g.findKey? r.key).isSome := List.find?_isSome.mpr ⟨r, hr, decide_eq_true rfl⟩
  obtain ⟨found, hfound⟩ := Option.isSome_iff_exists.mp hsome
  obtain ⟨hmem, hkey⟩ := mem_of_findKey? hfound
  rw [hfound, List.inj_on_of_nodup_map h.nodup hmem hr hkey]

/-- Every rename in the registry has at most one separator in front of its names. -/
theorem singlyLed_of_mem (h : g.Reflects calls) (hr : r ∈ g.records) : r.IsSinglyLed := by
  have hfind := h.findKey?_key hr
  rw [h.first] at hfind
  obtain ⟨first, hfirst, rfl⟩ := Option.map_eq_some_iff.mp hfind
  exact (h.singlyLed first (List.mem_of_find?_eq_some hfirst)).bare

/-- A rename that is not refused leaves its symbol with the first one tried for it, which has the same
target. -/
theorem exists_first (h : g.Reflects calls) (hr : r.IsSinglyLed) (hrecord : g.record r = .ok g') :
    ∃ first, (calls ++ [r]).find? (fun c => c.key = r.key) = some first ∧
      g'.findKey? r.key = some first.bare ∧ Name.key r.kind first.renamed = r.target := by
  obtain ⟨held, hheld, htarget⟩ := exists_of_record hrecord
  rw [hr.key_bare] at hheld
  rw [hr.target_bare] at htarget
  have hafter := h.record hr hrecord
  obtain ⟨first, hfirst, rfl⟩ := Option.map_eq_some_iff.mp ((hafter.first r.key).symm.trans hheld)
  have hled := hafter.singlyLed first (List.mem_of_find?_eq_some hfirst)
  have hkind : first.kind = r.kind := (Prod.mk.inj (mem_of_findKey? hheld).2).1
  refine ⟨first, hfirst, hheld, ?_⟩
  rw [← htarget, hled.target_bare, Rename.target, hkind]

end Reflects

end Registry

/-- A call that was made on a registry. -/
structure Attempt where
  /-- The rename that was to be recorded. -/
  rename : Rename
  /-- The conflict for which it was refused. -/
  refusal : Option Conflict
  deriving DecidableEq, Repr

namespace Attempt

/-- What tells the renamed symbol from others. -/
def key (a : Attempt) : SymbolKind × Text := a.rename.bare.key

/-- The target as it is compared. -/
def target (a : Attempt) : Text := a.rename.bare.target

end Attempt

namespace Registry

/-- The registry after a call, which may be refused. -/
def attempt (g : Registry) (r : Rename) : Registry × Attempt :=
  match g.record r with
  | .ok g' => (g', ⟨r, none⟩)
  | .error c => (g, ⟨r, some c⟩)

variable {g : Registry}

/-- An attempt is one to record the rename that is called for. -/
@[simp] theorem rename_attempt (g : Registry) (r : Rename) : (g.attempt r).2.rename = r := by
  unfold attempt
  split <;> rfl

/-- A call is new to the registry and is kept, or its symbol has a rename and the registry stays as it is;
then the call is refused just if that rename has another target. -/
theorem attempt_cases (g : Registry) (r : Rename) :
    (g.findKey? r.bare.key = none ∧ (g.attempt r).1 = ⟨g.records ++ [r.bare]⟩
        ∧ (g.attempt r).2.refusal = none) ∨
    ∃ old, g.findKey? r.bare.key = some old ∧ (g.attempt r).1 = g
      ∧ ((g.attempt r).2.refusal = none ↔ old.target = r.bare.target) := by
  cases hfind : g.findKey? r.bare.key with
  | none =>
    left
    simp [attempt, record_of_new hfind]
  | some old =>
    right
    refine ⟨old, rfl, ?_⟩
    by_cases htarget : old.target = r.bare.target
    · simp [attempt, record_of_confirmed hfind htarget, htarget]
    · simp [attempt, record_of_contradicted hfind htarget, htarget]

/-- What is found after a call: what was found before, and else what was called for. -/
theorem findKey?_attempt (g : Registry) (r : Rename) (key : SymbolKind × Text) :
    (g.attempt r).1.findKey? key
      = (g.findKey? key).or (if r.bare.key = key then some r.bare else none) := by
  obtain ⟨-, hkept, -⟩ | ⟨old, hold, hsame, -⟩ := g.attempt_cases r
  · rw [hkept, findKey?_concat]
  · rw [hsame]
    by_cases hkey : r.bare.key = key
    · rw [← hkey, hold, Option.some_or]
    · rw [if_neg hkey, Option.or_none]

/-- No symbol is there twice after a call if none was before. -/
theorem nodup_attempt (r : Rename) (h : (g.records.map Rename.key).Nodup) :
    ((g.attempt r).1.records.map Rename.key).Nodup := by
  obtain ⟨hnone, hkept, -⟩ | ⟨-, -, hsame, -⟩ := g.attempt_cases r
  · have hnew : r.bare.key ∉ g.records.map Rename.key := by
      intro hmem
      obtain ⟨old, hold, hkey⟩ := List.mem_map.mp hmem
      exact List.find?_eq_none.mp hnone old hold (decide_eq_true hkey)
    rw [hkept, List.map_append, List.map_singleton]
    exact List.nodup_append.mpr ⟨h, List.nodup_singleton _, by
      rintro a ha b hb rfl
      exact hnew (List.mem_singleton.mp hb ▸ ha)⟩
  · rw [hsame]
    exact h

end Registry

namespace Registry

variable {g g' : Registry} {r : Rename}

/-- After a rename that is recorded, the others are. -/
theorem recordAll_cons_of_ok (h : g.record r = .ok g') (rs : List Rename) :
    g.recordAll (r :: rs) = g'.recordAll rs := by
  rw [recordAll, h]

/-- After a rename that is refused, no other one is tried. -/
theorem recordAll_cons_of_error {c : Conflict} (h : g.record r = .error c) (rs : List Rename) :
    g.recordAll (r :: rs) = (g, some c) := by
  rw [recordAll, h]

/-- After recording, a symbol has the rename that it had, or else the new one if it is about this symbol. -/
theorem findKey?_record (h : g.record r = .ok g') (key : SymbolKind × Text) :
    g'.findKey? key = (g.findKey? key).or (if r.bare.key = key then some r.bare else none) := by
  have hattempt := g.findKey?_attempt r key
  rwa [attempt, h] at hattempt

end Registry

end PhpPrefixer
