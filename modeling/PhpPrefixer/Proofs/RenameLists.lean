import PhpPrefixer.Proofs.HandFiles
import PhpPrefixer.Proofs.RecordedRenames

/-!
# The renames of a file

The renames that are made in a file are kept twice: in the registry of the run, and in a list of the file
itself. The registry looks for a symbol by its key and keeps names without a leading separator. The list is
searched from the front, and keeps names as they were given. A `Session` is the work on one file in which
renames are asked for, one after the other; some may be refused, and the work goes on.

What both know is `Session.Mirrors`: the list holds the first rename that was granted for each symbol, and
the registry has a rename of this symbol to the same target. One call keeps this (`Mirrors.ask`), and so does
every sequence of calls (`Session.renames_mirror_registry`).

The name that is renamed may have one separator in front, and its target as well. A second separator in front
of a target is taken away by the comparison in the registry, but not from the target in the list.
-/

namespace PhpPrefixer

/-- A rename that is asked for. -/
structure Asked where
  /-- The kind of the symbol. -/
  kind : SymbolKind
  /-- The name before. -/
  name : Text
  /-- The name after. -/
  target : Text
  deriving DecidableEq, Repr

/-- The rename as it is kept by a file. -/
def Asked.rename (w : FileSetting) (a : Asked) : Rename := ⟨a.name, a.target, a.kind, some w.path⟩

/-- The work on a file while renames are asked for. -/
structure Session where
  /-- The state of the work. -/
  state : FileState
  /-- The run. -/
  run : Run
  /-- The renames that were granted, in order. -/
  granted : List Rename

namespace Session

/-- Before anything is asked for. -/
def start (run : Run) : Session := ⟨.start, run, []⟩

/-- How a call ends, and the run after it. -/
def attempt (w : FileSetting) (x : Session) (a : Asked) : Except Failure (Unit × FileState) × Run :=
  ((w.record a.kind a.name a.target).run x.state).run x.run

/-- The session after a call. A call that fails leads to no state, and the file keeps the one that it has. -/
def ask (w : FileSetting) (x : Session) (a : Asked) : Session :=
  match x.attempt w a with
  | (.ok (_, s), run) => ⟨s, run, x.granted ++ [a.rename w]⟩
  | (.error _, run) => { x with run }

/-- The session after some calls, each of which may be refused. -/
def askAll (w : FileSetting) (x : Session) (asked : List Asked) : Session := asked.foldl (ask w) x

variable {w : FileSetting} {x : Session} {a : Asked}

/-- A call is refused by the registry before the state is touched, or it is granted and the list may grow. -/
theorem attempt_cases (w : FileSetting) (x : Session) (a : Asked) :
    (∃ c, x.run.registry.record (a.rename w) = .error c
      ∧ x.attempt w a = (.error (.conflict c), x.run)) ∨
    ∃ run, x.run.registry.record (a.rename w) = .ok run.registry
      ∧ x.attempt w a = (.ok ((), x.state.withRename (a.rename w)), run) := by
  have hattempt : x.attempt w a
      = (Plan.record (a.rename w) >>= fun _ => pure ((), x.state.withRename (a.rename w))).run x.run := rfl
  rw [hattempt, Plan.run_bind, Plan.run, Plan.record, Run.takeAll, Run.take, Run.record]
  cases x.run.registry.record (a.rename w) with
  | error c => exact .inl ⟨c, rfl, rfl⟩
  | ok g =>
    let recorded : Run := { x.run with registry := g }
    refine .inr ⟨if x.run.registry.isNew (a.rename w) then recorded.write (a.rename w).bare.entry
      else recorded, ?_, rfl⟩
    split <;> rfl

/-- A call that is refused meets a conflict, and changes nothing. -/
theorem ask_of_error {f : Failure} (h : (x.attempt w a).1 = .error f) :
    (∃ c, f = .conflict c) ∧ (x.attempt w a).2 = x.run ∧ x.ask w a = x := by
  obtain ⟨c, -, hattempt⟩ | ⟨run, -, hattempt⟩ := attempt_cases w x a
  · rw [hattempt] at h
    cases h
    exact ⟨⟨c, rfl⟩, by rw [hattempt], by rw [ask, hattempt]⟩
  · rw [hattempt] at h
    cases h

/-- The list of a file and the registry tell the same about what was granted. -/
structure Mirrors (x : Session) : Prop where
  /-- No symbol is in the list twice. -/
  nodup : (x.state.renames.map Rename.key).Nodup
  /-- The symbols are in the list in the order in which they were first granted. -/
  keys : x.state.renames.map Rename.key = (x.granted.map Rename.key).eraseDups
  /-- Each has the first rename that was granted for it. -/
  first : ∀ r ∈ x.state.renames, x.granted.find? (fun q => q.key = r.key) = some r
  /-- The registry has a rename of the symbol to the same target. -/
  held : ∀ r ∈ x.state.renames,
    ∃ old, x.run.registry.findKey? r.key = some old ∧ old.target = r.bare.target

/-- Before anything is asked for, the lists mirror each other. -/
theorem mirrors_start (run : Run) : (start run).Mirrors where
  nodup := List.nodup_nil
  keys := rfl
  first _ h := absurd h List.not_mem_nil
  held _ h := absurd h List.not_mem_nil

namespace Mirrors

/-- A symbol is in the list of a file just if a rename of it was granted. -/
theorem mem_keys_iff (h : x.Mirrors) {key : SymbolKind × Text} :
    key ∈ x.state.renames.map Rename.key ↔ key ∈ x.granted.map Rename.key := by
  rw [h.keys, List.mem_eraseDups]

/-- What is granted for a symbol in the list changes nothing in it. -/
theorem granted_again (h : x.Mirrors) {r : Rename} (hr : r.key ∈ x.state.renames.map Rename.key)
    {run : Run} (hrun : x.run.registry.records <+: run.registry.records) :
    Mirrors ⟨x.state, run, x.granted ++ [r]⟩ where
  nodup := h.nodup
  keys := by
    have hold : [r.key].removeAll (x.granted.map Rename.key) = [] := by
      simpa [List.removeAll] using h.mem_keys_iff.mp hr
    rw [h.keys, List.map_append, List.map_singleton, List.eraseDups_append, hold]
    simp
  first q hq := by rw [List.find?_append, h.first q hq, Option.some_or]
  held q hq := by
    obtain ⟨old, hold, htarget⟩ := h.held q hq
    exact ⟨old, Registry.findKey?_of_prefix hrun hold, htarget⟩

/-- What is granted for a symbol that is not in the list is added at its end. -/
theorem granted_first (h : x.Mirrors) {r : Rename} (hr : r.key ∉ x.state.renames.map Rename.key)
    {run : Run} (hrun : x.run.registry.records <+: run.registry.records)
    (hheld : ∃ old, run.registry.findKey? r.key = some old ∧ old.target = r.bare.target) :
    Mirrors ⟨{ x.state with renames := x.state.renames ++ [r] }, run, x.granted ++ [r]⟩ where
  nodup := by
    rw [List.map_append, List.map_singleton, ← List.concat_eq_append]
    exact h.nodup.concat hr
  keys := by
    have hnew : [r.key].removeAll (x.granted.map Rename.key) = [r.key] := by
      simpa [List.removeAll] using fun hmem => hr (h.mem_keys_iff.mpr hmem)
    rw [List.map_append, List.map_append, List.map_singleton, h.keys, List.eraseDups_append, hnew]
    rfl
  first q hq := by
    rw [List.find?_append]
    rcases List.mem_append.mp hq with hold | hnew
    · rw [h.first q hold, Option.some_or]
    · cases List.mem_singleton.mp hnew
      have hnone : x.granted.find? (fun q => q.key = r.key) = none := by
        refine List.find?_eq_none.mpr fun p hp hkey => hr (h.mem_keys_iff.mpr ?_)
        exact List.mem_map.mpr ⟨p, hp, of_decide_eq_true hkey⟩
      rw [hnone, Option.none_or]
      simp
  held q hq := by
    rcases List.mem_append.mp hq with hold | hnew
    · obtain ⟨old, hfind, htarget⟩ := h.held q hold
      exact ⟨old, Registry.findKey?_of_prefix hrun hfind, htarget⟩
    · cases List.mem_singleton.mp hnew
      exact hheld

/-- A call keeps list and registry in step. -/
theorem ask (h : x.Mirrors) (w : FileSetting) (ha : Name.IsSinglyLed a.name) :
    (x.ask w a).Mirrors := by
  obtain ⟨c, -, hattempt⟩ | ⟨run, hrecord, hattempt⟩ := attempt_cases w x a
  · rw [(ask_of_error (congrArg Prod.fst hattempt)).2.2]
    exact h
  · have hgrown := Registry.prefix_of_record hrecord
    have hkey : (a.rename w).bare.key = (a.rename w).key :=
      congrArg (Prod.mk a.kind) (ha.key_bare a.kind)
    have hheld := hkey ▸ Registry.exists_of_record hrecord
    rw [Session.ask, hattempt]
    dsimp only
    unfold FileState.withRename
    split
    · next hlisted =>
      refine h.granted_again ?_ hgrown
      obtain ⟨old, hold, hsame⟩ := List.any_eq_true.mp hlisted
      exact List.mem_map.mpr ⟨old, hold, of_decide_eq_true hsame⟩
    · next hlisted =>
      refine h.granted_first (fun hmem => hlisted ?_) hgrown hheld
      obtain ⟨old, hold, hsame⟩ := List.mem_map.mp hmem
      exact List.any_eq_true.mpr ⟨old, hold, decide_eq_true hsame⟩

/-- Whatever is asked for, the list of a file mirrors what was granted. -/
theorem askAll (h : x.Mirrors) (w : FileSetting) {asked : List Asked}
    (hasked : ∀ a ∈ asked, Name.IsSinglyLed a.name) : (x.askAll w asked).Mirrors := by
  induction asked generalizing x with
  | nil => exact h
  | cons a asked ih =>
    obtain ⟨ha, hasked⟩ := List.forall_mem_cons.mp hasked
    exact ih (h.ask w ha) hasked

end Mirrors

/-- The list of a file mirrors the registry, whatever the registry held before. After any calls, the symbols
in the list are those that were granted, each once and in the order of the first grant, and each with the
rename that was granted first. The registry has a rename under the same key to the same target, where the
target in the list is taken without its leading separator; if it has no second one, the two targets are
looked up under one key as they stand. A call that fails meets a conflict, and changes neither. -/
theorem renames_mirror_registry (w : FileSetting) (run : Run) (asked : List Asked)
    (hasked : ∀ a ∈ asked, Name.IsSinglyLed a.name) :
    let x := (start run).askAll w asked
    (x.state.renames.map Rename.key).Nodup
      ∧ x.state.renames.map Rename.key = (x.granted.map Rename.key).eraseDups
      ∧ (∀ r ∈ x.state.renames, x.granted.find? (fun q => q.key = r.key) = some r)
      ∧ (∀ r ∈ x.state.renames, ∃ old, x.run.registry.findKey? r.key = some old
        ∧ old.target = r.bare.target ∧ (Name.IsSinglyLed r.renamed → old.target = r.target))
      ∧ ∀ a f, (x.attempt w a).1 = .error f →
        (∃ c, f = .conflict c) ∧ (x.attempt w a).2 = x.run ∧ x.ask w a = x := by
  intro x
  have hmirrors : x.Mirrors := (mirrors_start run).askAll w hasked
  refine ⟨hmirrors.nodup, hmirrors.keys, hmirrors.first, fun r hr => ?_, fun a f => ask_of_error⟩
  obtain ⟨old, hold, htarget⟩ := hmirrors.held r hr
  refine ⟨old, hold, htarget, fun hled => ?_⟩
  rw [htarget]
  exact hled.key_bare r.kind

/-- A class that the registry knows, in two spellings and then with another target, and two constants that
differ in letter case. -/
theorem renames_mirror_registry_letterCase :
    let w := FileSetting.bareFile
    let known : Rename := ⟨"Acme\\Foo".toList, "Humbug\\Acme\\Foo".toList, .classLike, none⟩
    let foo : Asked := ⟨.classLike, "\\Acme\\Foo".toList, "\\Humbug\\ACME\\Foo".toList⟩
    let again : Asked := ⟨.classLike, "acme\\FOO".toList, "humbug\\acme\\foo".toList⟩
    let refused : Asked := ⟨.classLike, "Acme\\Foo".toList, "Other\\Foo".toList⟩
    let limit : Asked := ⟨.constant, "LIMIT".toList, "Humbug\\LIMIT".toList⟩
    let lower : Asked := ⟨.constant, "limit".toList, "Humbug\\limit".toList⟩
    let asked := [limit, foo, refused, again, lower, limit]
    let x := (start ⟨⟨[known]⟩, .withThreshold .warning⟩).askAll w asked
    (∀ a ∈ asked, Name.IsSinglyLed a.name)
      ∧ x.granted = [limit, foo, again, lower, limit].map (Asked.rename w)
      ∧ x.state.renames = [limit, foo, lower].map (Asked.rename w)
      ∧ (x.state.renames.map Rename.key).Nodup
      ∧ (∃ old, x.run.registry.findKey? (foo.rename w).key = some old ∧ old.target = (foo.rename w).target)
      ∧ x.ask w refused = x := by
  intro w known foo again refused limit lower asked x
  have hasked : ∀ a ∈ asked, Name.IsSinglyLed a.name := by decide +kernel
  have hgranted : x.granted = [limit, foo, again, lower, limit].map (Asked.rename w) := by decide +kernel
  have hrenames : x.state.renames = [limit, foo, lower].map (Asked.rename w) := by decide +kernel
  have hrefused : (x.attempt w refused).1.toOption.isSome = false := by decide +kernel
  have hled : Name.IsSinglyLed (foo.rename w).renamed := by decide +kernel
  have hmirrors := renames_mirror_registry w ⟨⟨[known]⟩, .withThreshold .warning⟩ asked hasked
  rw [show (start ⟨⟨[known]⟩, .withThreshold .warning⟩).askAll w asked = x from rfl] at hmirrors
  -- All that has to be computed is known by now; unfolding the session again would take long.
  clear_value x
  obtain ⟨hnodup, -, -, hheld, hfails⟩ := hmirrors
  have hfoo : foo.rename w ∈ x.state.renames := by
    rw [hrenames]
    exact List.mem_cons_of_mem _ List.mem_cons_self
  obtain ⟨old, hold, -, htarget⟩ := hheld (foo.rename w) hfoo
  refine ⟨hasked, hgranted, hrenames, hnodup, ⟨old, hold, htarget hled⟩, ?_⟩
  cases hended : (x.attempt w refused).1 with
  | error f => exact (hfails refused f hended).2.2
  | ok s =>
    rw [hended] at hrefused
    cases hrefused

/-- With two separators in front of a target, the targets in the list and in the registry are looked up under
different keys, although the name that is renamed has none. -/
theorem doubled_separator_parts_targets :
    let a : Asked := ⟨.classLike, "A".toList, "\\\\B".toList⟩
    let x := (start ⟨.empty, .withThreshold .warning⟩).askAll .bareFile [a]
    Name.IsSinglyLed a.name ∧ x.granted = [a.rename .bareFile]
      ∧ ¬∀ r ∈ x.state.renames, ∃ old ∈ x.run.registry.records, old.key = r.key ∧ old.target = r.target := by
  decide +kernel

end Session

end PhpPrefixer
