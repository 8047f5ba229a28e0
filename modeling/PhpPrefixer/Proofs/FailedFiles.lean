import PhpPrefixer.Proofs.HandFiles
import PhpPrefixer.Proofs.PlanRuns
import PhpPrefixer.Proofs.RecordedRenames
import PhpPrefixer.Proofs.RecordingWalk

/-!
# What a failed file leaves behind

A file records its renames one by one while it is walked through, and nothing takes them back. So the
registry after a file is the one before it with the renames of its steps recorded, whether the file
ended well or not, and a file that failed leaves behind what was new among the renames it had recorded
until then. Nothing is left behind where the file failed before the walk: `Prefixer.failed_file_adds`.
-/

namespace PhpPrefixer

/-- A file may record the renames that it justifies, and may fail in every way but by a conflict. -/
def Conduct.ofFile (r : Relocation) (path : Text) : Conduct where
  step
    | .record rename => r.Justifies path True rename
    | _ => True
  failure f := ∀ x, f ≠ .conflict x

/-- The conduct of a file allows the renames that are justified in it. -/
theorem Conduct.ofFile_allows (r : Relocation) (path : Text) :
    (Conduct.ofFile r path).Allows r path True where
  note := fun _ => trivial
  record := fun _ h => h
  failure := fun _ hf => hf

namespace Prefixer

variable {p : Prefixer} {whitelist : Whitelist} {path root : Text} {given : Option Text}
  {contents : Text}

/-- A file whose prefix is refused records nothing. -/
theorem renames_treat_of_badPrefix {e : PrefixError} (h : Prefix.validate given = .error e) :
    (p.treat whitelist path given contents).renames = [] := by
  rw [treat, levelsOf, treatWithin]
  split
  · rw [h]
    rfl
  · rfl

/-- Parsing a file records nothing. -/
theorem renames_parseFile (p : Prefixer) (path code : Text) : (p.parseFile path code).renames = [] := by
  rw [parseFile]
  cases (p.parse code).check code with
  | error e => rfl
  | ok tree => rfl

/-- A file that cannot be parsed records nothing. -/
theorem renames_treat_of_unparsable {e : SyntaxError}
    (h : (p.parse (Recognition.splitShebang contents).2).check (Recognition.splitShebang contents).2
      = .error e) :
    (p.treat whitelist path given contents).renames = [] := by
  rw [treat, levelsOf, treatWithin]
  split
  · cases Prefix.validate given with
    | error e => rfl
    | ok root =>
      have hparse : (p.parseFile path (Recognition.splitShebang contents).2).outcome
          = .error (.unparsable e) := by
        rw [parseFile, h]
        rfl
      have hmove : ∀ treat, p.moveCode whitelist path root treat (Recognition.splitShebang contents).2
          = ⟨(p.parseFile path (Recognition.splitShebang contents).2).steps, .error (.unparsable e)⟩ :=
        fun treat => Plan.bind_of_error hparse
      dsimp only
      rw [hmove, Plan.bind_of_error rfl]
      exact renames_parseFile p path _
  · rfl

/-- All renames of a file are justified if the parser reads names well. -/
theorem justifies_renames_treat (hp : p.ReadsWell) (hroot : Prefix.validate (some root) = .ok root)
    {r : Rename} (hr : r ∈ (p.treat whitelist path (some root) contents).renames) :
    Relocation.Justifies ⟨root, ⟨p.natives, whitelist⟩⟩ path True r := by
  have hkeeps := keeps_treatWithin hp.names (fun _ => hp.spaces) hroot
    (Conduct.ofFile_allows ⟨root, ⟨p.natives, whitelist⟩⟩ path) (levelsOf contents) contents
  obtain ⟨step, hstep, hrename⟩ := List.mem_filterMap.mp hr
  have hallowed := hkeeps.step step hstep
  cases step with
  | record rename =>
    cases hrename
    exact hallowed
  | note e => cases hrename
  | threshold level => cases hrename

/-- A file that fails takes back nothing. The registry has the renames recorded that the file made
before it failed: they stand after those that were there, which stay as they are, and only for symbols
that had none. All of them are renames that the file justifies, if the parser reads names well. So the
registry stays the same just if the file had recorded nothing new. It does if the prefix is refused or
if the file itself cannot be parsed. -/
theorem failed_file_adds {run run' : Run} {f : Failure}
    (h : (p.treat whitelist path given contents).run run = (.error f, run')) :
    let renames := (p.treat whitelist path given contents).renames
    let code := (Recognition.splitShebang contents).2
    run'.registry = (run.registry.recordAll renames).1
      ∧ (∃ added, run'.registry.records = run.registry.records ++ added
        ∧ added.Sublist (renames.map Rename.bare)
        ∧ (∀ r ∈ added, run.registry.find? r.kind r.name = none)
        ∧ ∀ root, given = some root → Prefix.validate (some root) = .ok root → p.ReadsWell →
          ∀ r ∈ added, Relocation.Justifies ⟨root, ⟨p.natives, whitelist⟩⟩ path True r)
      ∧ (run'.registry = run.registry ↔
        ∀ r ∈ run.registry.tried renames, run.registry.isNew r = false)
      ∧ (∀ e, Prefix.validate given = .error e → run'.registry = run.registry)
      ∧ ∀ e, (p.parse code).check code = .error e → run'.registry = run.registry := by
  intro renames code
  have hregistry : run'.registry = (run.registry.recordAll renames).1 := by
    rw [← Plan.registry_run, h]
  have hunchanged : renames = [] → run'.registry = run.registry := by
    intro hnone
    rw [hregistry, hnone]
    rfl
  obtain ⟨added, hrecords, hsub, hnew⟩ := run.registry.exists_added_recordAll renames
  refine ⟨hregistry, ⟨added, hregistry ▸ hrecords, hsub, hnew, ?_⟩, ?_, ?_, ?_⟩
  · rintro root rfl hroot hp r hr
    obtain ⟨rename, hrename, rfl⟩ := List.mem_map.mp (hsub.subset hr)
    have hjustified := justifies_renames_treat hp hroot hrename
    rwa [hjustified.bare_eq]
  · rw [hregistry]
    exact run.registry.recordAll_eq_self_iff renames
  · exact fun e he => hunchanged (renames_treat_of_badPrefix he)
  · exact fun e he => hunchanged (renames_treat_of_unparsable he)

end Prefixer

/-- A class is named, and then code is embedded that cannot be parsed. -/
def HandFile.brokenEval : HandFile where
  code := "<?php new \\A; eval('new');"
  root := .program 26
    [.part "expression_statement" 6 13
        [.part "object_creation_expression" 6 12
            [.token "new" 6 9,
              .part "qualified_name" 10 12 [.token "\\" 10 11, .part "name" 11 12 []]],
          .token ";" 12 13],
      .part "expression_statement" 14 26
        [.callTo 14 18 (.part "arguments" 18 25
            [.token "(" 18 19, .part "argument" 19 24 [.threeQuoted 19], .token ")" 24 25]),
          .token ";" 25 26]]

/-- The treatment of the file with embedded code that cannot be parsed. -/
def Plan.ofBrokenEval : Plan Text :=
  HandFile.brokenEval.prefixer.treat .empty "a.php".toList (some "Humbug".toList)
    HandFile.brokenEval.code.toList

namespace Prefixer

/-- The class is recorded, and then the file fails. -/
theorem ofBrokenEval_fails :
    Plan.ofBrokenEval.renames
        = [⟨"A".toList, "Humbug\\A".toList, .classLike, some "a.php".toList⟩]
      ∧ ∃ e, Plan.ofBrokenEval.outcome = .error (.unparsable e) := by
  have hends : Plan.ofBrokenEval.renames
        = [⟨"A".toList, "Humbug\\A".toList, .classLike, some "a.php".toList⟩]
      ∧ (match Plan.ofBrokenEval.outcome with
        | .error (.unparsable _) => true
        | _ => false) = true := by
    unfold Plan.ofBrokenEval treat treatWithin moveCode walk
    simp only [Walk.through_eq]
    decide +kernel
  refine ⟨hends.1, ?_⟩
  obtain ⟨-, hunparsable⟩ := hends
  split at hunparsable
  · next e he => exact ⟨e, he⟩
  · cases hunparsable

/-- A file can leave a rename behind although it fails: the class it names is recorded before the code
that cannot be parsed is reached. -/
theorem failed_file_leaves_rename :
    ∃ e run', Plan.ofBrokenEval.run ⟨.empty, .withThreshold .warning⟩ = (.error (.unparsable e), run')
      ∧ run'.registry ≠ .empty
      ∧ run'.registry.find? .classLike "A".toList
        = some ⟨"A".toList, "Humbug\\A".toList, .classLike, some "a.php".toList⟩ := by
  obtain ⟨hrenames, e, he⟩ := ofBrokenEval_fails
  let run : Run := ⟨.empty, .withThreshold .warning⟩
  have hrecorded : run.registry.recordAll Plan.ofBrokenEval.renames
      = (⟨[⟨"A".toList, "Humbug\\A".toList, .classLike, some "a.php".toList⟩]⟩, none) := by
    rw [hrenames]
    decide +kernel
  obtain ⟨run', hrun, hregistry⟩ := Plan.run_of_recorded hrecorded
  rw [he] at hrun
  refine ⟨e, run', hrun, ?_, ?_⟩
  · rw [hregistry]
    decide +kernel
  · rw [hregistry]
    decide +kernel

/-- The file that leaves a rename behind, after another file has recorded one. -/
theorem failed_file_adds_ofBrokenEval :
    let kept : Rename := ⟨"B".toList, "Humbug\\B".toList, .classLike, some "b.php".toList⟩
    let run : Run := ⟨⟨[kept]⟩, .withThreshold .warning⟩
    ∃ f run', Plan.ofBrokenEval.run run = (.error f, run')
      ∧ (∃ added, run'.registry.records = kept :: added ∧ ∀ r ∈ added,
        run.registry.find? r.kind r.name = none
          ∧ Relocation.Justifies ⟨"Humbug".toList, ⟨HandFile.natives, .empty⟩⟩ "a.php".toList True r)
      ∧ run'.registry ≠ run.registry := by
  intro kept run
  obtain ⟨hrenames, e, he⟩ := ofBrokenEval_fails
  have hrecorded : run.registry.recordAll Plan.ofBrokenEval.renames
      = (⟨[kept, ⟨"A".toList, "Humbug\\A".toList, .classLike, some "a.php".toList⟩]⟩, none) := by
    rw [hrenames]
    decide +kernel
  obtain ⟨run', hrun, -⟩ := Plan.run_of_recorded hrecorded
  rw [he] at hrun
  have hreads : HandFile.brokenEval.prefixer.ReadsWell :=
    HandFile.readsWell_prefixer (by decide +kernel) (by decide +kernel)
  obtain ⟨-, ⟨added, hrecords, -, hnew, hjustified⟩, hiff, -⟩ := failed_file_adds hrun
  refine ⟨_, _, hrun, ⟨added, hrecords, fun r hr => ⟨hnew r hr, ?_⟩⟩, fun heq => ?_⟩
  · exact hjustified _ rfl (by decide +kernel) hreads r hr
  · have hknown : ∀ r ∈ run.registry.tried Plan.ofBrokenEval.renames,
        run.registry.isNew r = false := hiff.mp heq
    rw [hrenames] at hknown
    exact absurd hknown (by decide +kernel)

end Prefixer

end PhpPrefixer
