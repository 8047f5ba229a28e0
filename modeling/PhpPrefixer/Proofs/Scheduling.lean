import PhpPrefixer.Proofs.Agreement
import PhpPrefixer.Proofs.HandFiles
import PhpPrefixer.Proofs.Turns

/-!
# Batches do not depend on the schedule

Under one prefix no file meets a conflict, and with the strategy that goes on no file stops the others.
So every file comes to the end it would come to alone, whatever the schedule is, and the registry knows
the targets that the steps taken so far set, whoever took them first. The invariant is
`Batch.State.IsUnder`; it is kept by each turn and so by each schedule.
-/

namespace PhpPrefixer

variable {root : Text}

/-- Patchers record nothing, and fail by themselves only. -/
theorem Patcher.keeps_applyFrom (root : Text) (count number : Nat) (path : Text)
    (given : Option Text) (ps : List Patcher) (text : Text) :
    (applyFrom count number path given ps text).Keeps (.under root) fun _ => True := by
  induction ps generalizing number text with
  | nil => exact Plan.Keeps.pure trivial
  | cons p ps ih =>
    unfold applyFrom
    cases p.patch ⟨path, given, text⟩ with
    | error e => exact Plan.Keeps.fail fun _ => Failure.noConfusion
    | ok patched =>
      have hnote : (Plan.note .debug .patching (String.ofList path ++ ": applied patcher "
          ++ toString number ++ "/" ++ toString count)).Keeps (.under root) fun _ => True :=
        Plan.Keeps.single trivial trivial
      exact hnote.bind fun _ _ => ih (number + 1) patched

/-- The work on a file under a prefix records renames under that prefix only. -/
theorem Job.keeps_file {j : Job} (hgiven : j.given = some root)
    (hroot : Prefix.validate (some root) = .ok root) (hnames : j.prefixer.NamesWellFormed)
    (path contents : Text) : (j.file path contents).Keeps (.under root) fun _ => True := by
  have htreat := Prefixer.keeps_treat hnames hroot j.whitelist path contents
  rw [← hgiven] at htreat
  exact htreat.bind fun moved _ => Patcher.keeps_applyFrom root _ _ path j.given j.patchers moved

namespace Batch

/-- The end of a file changes no rename and stops no other file. -/
theorem exists_step_ended {outcome : Except Failure Text}
    (h : ∀ c, outcome ≠ .error (.conflict c)) (path : Text) (run : Run) :
    ∃ after, step .continue ⟨[], outcome⟩ path ⟨run, false⟩ = (reportOf path outcome, ⟨after, false⟩)
      ∧ after.registry = run.registry := by
  cases outcome with
  | ok t => exact ⟨run, rfl, rfl⟩
  | error f =>
    cases f with
    | conflict c => exact absurd rfl (h c)
    | _ => exact ⟨_, rfl, rfl⟩

namespace Item

/-- The steps the work on a file has taken so far. -/
def taken (item : Item) : List Step :=
  match item.standing with
  | .waiting => []
  | .working taken _ => taken
  | .finished _ => item.work.steps

/-- The work on a file is under a prefix, and it comes to its own end. -/
structure IsUnder (root : Text) (item : Item) : Prop where
  /-- The work is under the prefix. -/
  work : item.work.Keeps (.under root) fun _ => True
  /-- While it goes on, it takes the steps of the work. -/
  working : ∀ taken rest, item.standing = .working taken rest → taken ++ rest = item.work.steps
  /-- Its report tells its own end. -/
  finished : ∀ report, item.standing = .finished report → report = reportOf item.path item.work.outcome

variable {item : Item} {run : Run}

/-- A file under a prefix never ends with a conflict. -/
theorem IsUnder.outcome_ne (h : item.IsUnder root) (c : Conflict) :
    item.work.outcome ≠ .error (.conflict c) := fun houtcome => h.work.failure _ houtcome c rfl

/-- A turn under the prefix: the file goes on by some steps, and the registry knows the targets it
knew and those that these steps set. -/
theorem IsUnder.turn (hroot : Name.IsRoot root) (h : item.IsUnder root)
    (hrun : run.registry.Follows root) :
    ∃ after run' steps, item.turn .continue ⟨run, false⟩ = (after, ⟨run', false⟩)
      ∧ after.IsUnder root ∧ after.taken = item.taken ++ steps ∧ run'.registry.Follows root
      ∧ ∀ key target, run'.registry.target? key = some target
        ↔ run.registry.target? key = some target ∨ Step.Sets steps key target := by
  obtain ⟨path, work, standing⟩ := item
  have hnothing : ∀ key target, run.registry.target? key = some target
      ↔ run.registry.target? key = some target ∨ Step.Sets [] key target := by
    simp [Step.Sets]
  cases standing with
  | waiting =>
    refine ⟨⟨path, work, .working [] work.steps⟩, run, [], rfl, ?_, rfl, hrun, hnothing⟩
    refine ⟨h.work, ?_, by rintro _ ⟨⟩⟩
    rintro taken rest ⟨rfl, rfl⟩
    rfl
  | working taken rest =>
    have hsteps : taken ++ rest = work.steps := h.working taken rest rfl
    cases rest with
    | nil =>
      obtain ⟨after, hstep, hregistry⟩ := exists_step_ended h.outcome_ne path run
      refine ⟨⟨path, work, .finished (reportOf path work.outcome)⟩, after, [], ?_, ?_, ?_, ?_, ?_⟩
      · simp only [Item.turn, withStanding, hstep, Bool.false_or]
      · refine ⟨h.work, by rintro _ _ ⟨⟩, ?_⟩
        rintro report ⟨rfl⟩
        rfl
      · exact hsteps.symm
      · rw [hregistry]
        exact hrun
      · rw [hregistry]
        exact hnothing
    | cons step rest =>
      have hmem : step ∈ work.steps := by
        rw [← hsteps]
        exact List.mem_append_right taken List.mem_cons_self
      obtain ⟨run', htake, hfollows, htargets⟩ :=
        Run.take_of_follows hroot hrun (h.work.step step hmem)
      refine ⟨⟨path, work, .working (taken ++ [step]) rest⟩, run', [step], ?_, ?_, rfl, hfollows,
        htargets⟩
      · simp only [Item.turn, htake, withStanding]
      · refine ⟨h.work, ?_, by rintro _ ⟨⟩⟩
        rintro _ _ ⟨rfl, rfl⟩
        rw [List.append_assoc]
        exact hsteps
  | finished report =>
    exact ⟨⟨path, work, .finished report⟩, run, [], rfl, h, (List.append_nil _).symm, hrun, hnothing⟩

end Item

namespace State

/-- Everything in a batch is under a prefix, and the registry knows the targets that the steps taken so
far set. -/
structure IsUnder (root : Text) (s : State) : Prop where
  /-- No file has stopped the others. -/
  stopped : s.progress.stopped = false
  /-- All renames were made under the prefix. -/
  registry : s.progress.run.registry.Follows root
  /-- The work on all files is under the prefix. -/
  items : ∀ item ∈ s.items, item.IsUnder root
  /-- The targets are those that the files have set. -/
  targets : ∀ key target, s.progress.run.registry.target? key = some target
    ↔ Step.Sets (s.items.flatMap Item.taken) key target

/-- A batch under a prefix starts so. -/
theorem isUnder_start {work : Text → Text → Plan Text} {files : List (Text × Text)}
    (hwork : ∀ path contents, (work path contents).Keeps (.under root) fun _ => True)
    (journal : Journal) : (start work files ⟨⟨.empty, journal⟩, false⟩).IsUnder root where
  stopped := rfl
  registry := Registry.follows_empty root
  items := by
    intro item hitem
    obtain ⟨file, -, rfl⟩ := List.mem_map.mp hitem
    exact ⟨hwork file.1 file.2, by rintro _ _ ⟨⟩, by rintro _ ⟨⟩⟩
  targets := by
    intro key target
    constructor
    · intro hempty
      cases hempty
    · rintro ⟨r, hr, -⟩
      obtain ⟨item, hitem, hstep⟩ := List.mem_flatMap.mp hr
      obtain ⟨file, -, rfl⟩ := List.mem_map.mp hitem
      cases hstep

variable {s : State}

/-- A turn leaves a batch under the prefix. -/
theorem IsUnder.advance (hroot : Name.IsRoot root) (h : s.IsUnder root) (index : Nat) :
    (s.advance .continue index).IsUnder root := by
  cases hitem : s.items[index]? with
  | none =>
    have hsame : s.advance .continue index = s := by simp only [State.advance, hitem]
    rw [hsame]
    exact h
  | some item =>
    obtain ⟨before, others, hsplit, hadvance⟩ := @exists_advance_eq .continue s index item hitem
    have hunder := h.items item (List.mem_of_getElem? hitem)
    have hprogress : s.progress = ⟨s.progress.run, false⟩ := by rw [← h.stopped]
    obtain ⟨after, run, steps, hturn, hafter, htaken, hfollows, htargets⟩ :=
      hunder.turn hroot h.registry
    rw [hadvance, hprogress, hturn]
    have hitems := h.items
    have hknown := h.targets
    rw [hsplit, List.forall_mem_append, List.forall_mem_cons] at hitems
    simp only [hsplit, List.flatMap_append, List.flatMap_cons, Step.sets_append] at hknown
    refine ⟨rfl, hfollows, ?_, ?_⟩
    · exact List.forall_mem_append.mpr ⟨hitems.1, List.forall_mem_cons.mpr ⟨hafter, hitems.2.2⟩⟩
    · intro key target
      simp only [List.flatMap_append, List.flatMap_cons, Step.sets_append, htargets, hknown, htaken]
      tauto

/-- Any turns leave a batch under the prefix. -/
theorem IsUnder.exec (hroot : Name.IsRoot root) (h : s.IsUnder root) (schedule : List Nat) :
    (s.exec .continue schedule).IsUnder root := by
  induction schedule generalizing s with
  | nil => exact h
  | cons index schedule ih => exact ih (h.advance hroot index)

/-- A file whose work is over has told its own end, and has taken all its steps. -/
theorem IsUnder.ended (h : s.IsUnder root) (hover : s.IsOver) {item : Item} (hitem : item ∈ s.items) :
    item.report? = some (reportOf item.path item.work.outcome) ∧ item.taken = item.work.steps := by
  have hunder := h.items item hitem
  have hreport := hover item hitem
  obtain ⟨path, work, standing⟩ := item
  cases standing with
  | waiting => cases hreport
  | working taken rest => cases hreport
  | finished report => exact ⟨congrArg some (hunder.finished report rfl), rfl⟩

/-- When a batch under a prefix is over, its reports are about the results of the files. -/
theorem IsUnder.reports_eq (h : s.IsUnder root) (hover : s.IsOver) :
    s.reports = s.items.map fun item => reportOf item.path item.work.outcome := by
  rw [reports, List.filterMap_congr fun item hitem => (h.ended hover hitem).1]
  exact congrFun List.filterMap_eq_map _

/-- When a batch under a prefix is over, its registry has just what the steps of the files set. -/
theorem IsUnder.target?_eq_some_iff (h : s.IsUnder root) (hover : s.IsOver)
    (key : SymbolKind × Text) (target : Text) :
    s.progress.run.registry.target? key = some target
      ↔ Step.Sets (s.items.flatMap fun item => item.work.steps) key target := by
  rw [h.targets, List.flatMap_congr fun item hitem => (h.ended hover hitem).2]

/-- At the end of a batch under a prefix, each file has the report that its own work gives it, and the
registry knows the targets that the work on all files sets. -/
theorem ended_of_isOver {work : Text → Text → Plan Text} {files : List (Text × Text)}
    {journal : Journal} {schedule : List Nat} (hroot : Name.IsRoot root)
    (hwork : ∀ path contents, (work path contents).Keeps (.under root) fun _ => True)
    (hover : ((start work files ⟨⟨.empty, journal⟩, false⟩).exec .continue schedule).IsOver) :
    ((start work files ⟨⟨.empty, journal⟩, false⟩).exec .continue schedule).reports
        = files.map (fun file => reportOf file.1 (work file.1 file.2).outcome)
      ∧ ∀ key target, ((start work files ⟨⟨.empty, journal⟩, false⟩).exec .continue
          schedule).progress.run.registry.target? key = some target
        ↔ Step.Sets (files.flatMap fun file => (work file.1 file.2).steps) key target := by
  let s := start work files ⟨⟨.empty, journal⟩, false⟩
  have hstart : s.IsUnder root := isUnder_start hwork journal
  have hunder := hstart.exec hroot schedule
  have hlabels : (s.exec .continue schedule).items.map (fun item => (item.path, item.work))
      = files.map fun file => (file.1, work file.1 file.2) := by
    rw [map_exec]
    exact List.map_map
  constructor
  · calc (s.exec .continue schedule).reports
        = (s.exec .continue schedule).items.map fun item => reportOf item.path item.work.outcome :=
          hunder.reports_eq hover
      _ = ((s.exec .continue schedule).items.map fun item => (item.path, item.work)).map
            fun label => reportOf label.1 label.2.outcome := by
          rw [List.map_map]
          rfl
      _ = files.map fun file => reportOf file.1 (work file.1 file.2).outcome := by
          rw [hlabels, List.map_map]
          rfl
  · intro key target
    have hsteps : (s.exec .continue schedule).items.flatMap (fun item => item.work.steps)
        = files.flatMap fun file => (work file.1 file.2).steps := by
      calc (s.exec .continue schedule).items.flatMap (fun item => item.work.steps)
          = ((s.exec .continue schedule).items.map fun item => (item.path, item.work)).flatMap
              fun label => label.2.steps := by rw [List.flatMap_map]
        _ = files.flatMap fun file => (work file.1 file.2).steps := by
            rw [hlabels, List.flatMap_map]
    rw [hunder.target?_eq_some_iff hover, hsteps]

/-- Two ways to work through a batch under a prefix end with the same reports and with registries that
know the same targets. -/
theorem eq_of_isOver {work : Text → Text → Plan Text} {files : List (Text × Text)}
    {journal other : Journal} {first second : List Nat} (hroot : Name.IsRoot root)
    (hwork : ∀ path contents, (work path contents).Keeps (.under root) fun _ => True)
    (hfirst : ((start work files ⟨⟨.empty, journal⟩, false⟩).exec .continue first).IsOver)
    (hsecond : ((start work files ⟨⟨.empty, other⟩, false⟩).exec .continue second).IsOver) :
    ((start work files ⟨⟨.empty, journal⟩, false⟩).exec .continue first).reports
        = ((start work files ⟨⟨.empty, other⟩, false⟩).exec .continue second).reports
      ∧ ∀ key, ((start work files ⟨⟨.empty, journal⟩, false⟩).exec .continue
          first).progress.run.registry.target? key
        = ((start work files ⟨⟨.empty, other⟩, false⟩).exec .continue
          second).progress.run.registry.target? key := by
  obtain ⟨hreports, htargets⟩ := ended_of_isOver hroot hwork hfirst
  obtain ⟨hsameReports, hsameTargets⟩ := ended_of_isOver hroot hwork hsecond
  refine ⟨hreports.trans hsameReports.symm, fun key => Option.ext fun target => ?_⟩
  exact (htargets key target).trans (hsameTargets key target).symm

end State

/-- A batch under a valid prefix, with the strategy that goes on and a registry that is empty at the
start. Every schedule with enough turns for each file ends it. Any two schedules that end it lead to the
same reports and to registries that know the same targets for the same symbols. The report on each file
tells what moving that file alone gives, on an empty registry. What the whole batch gives is what it
gives with the files worked on one after the other. -/
theorem schedule_irrelevant {j : Job} {root : Text} (hgiven : j.given = some root)
    (hroot : Prefix.validate (some root) = .ok root) (hnames : j.prefixer.NamesWellFormed)
    (files : List (Text × Text)) (journal : Journal) :
    let start := State.start j.file files ⟨⟨.empty, journal⟩, false⟩
    let after := start.exec .continue
    (∀ schedule, start.IsFair schedule → (after schedule).IsOver)
      ∧ ∀ first second, (after first).IsOver → (after second).IsOver →
        (after first).reports = (after second).reports
          ∧ (∀ key, (after first).progress.run.registry.target? key
            = (after second).progress.run.registry.target? key)
          ∧ (after first).reports = files.map (fun file =>
            reportOf file.1 ((j.file file.1 file.2).run ⟨.empty, journal⟩).1)
          ∧ ∀ workers ≥ 1,
            (run j files workers .continue ⟨.empty, journal⟩).1 = collect (after first).reports
              ∧ ∀ key, (run j files workers .continue ⟨.empty, journal⟩).2.registry.target? key
                = (after first).progress.run.registry.target? key := by
  intro start after
  have hprefix : Name.IsRoot root := Name.isRoot_of_validate hroot
  have hwork := Job.keeps_file hgiven hroot hnames
  refine ⟨fun schedule => State.isOver_of_isFair .continue, fun first second hfirst hsecond => ?_⟩
  obtain ⟨hreports, htargets⟩ := State.eq_of_isOver hprefix hwork hfirst hsecond
  refine ⟨hreports, htargets, ?_, ?_⟩
  · have halone : ∀ file : Text × Text, ((j.file file.1 file.2).run ⟨.empty, journal⟩).1
        = (j.file file.1 file.2).outcome := fun file =>
      Plan.run_eq_outcome hprefix (hwork file.1 file.2) (Registry.follows_empty root)
    simp only [halone]
    exact (State.ended_of_isOver hprefix hwork hfirst).1
  · intro workers hworkers
    obtain ⟨other, schedule, hover, hrun⟩ :=
      exists_run_eq j files hworkers .continue ⟨.empty, journal⟩
    obtain ⟨hsameReports, hsameTargets⟩ := State.eq_of_isOver hprefix hwork hover hfirst
    rw [hrun]
    exact ⟨congrArg collect hsameReports, hsameTargets⟩

/-- Moving files that create an object under `Humbug`, with a remark at their ends. -/
def creationJob : Job where
  prefixer := creationPrefixer
  whitelist := .empty
  given := some "Humbug".toList
  patchers := [.appending "end".toList "// done".toList]

/-- Two files that spell one class in different letter case. -/
def creationFiles : List (Text × Text) :=
  [("a.php".toList, creation 'A'), ("b.php".toList, creation 'a')]

/-- The two files worked on in rounds, and then with the second file first. -/
theorem schedule_irrelevant_letterCase :
    let start :=
      State.start creationJob.file creationFiles ⟨⟨.empty, .withThreshold .warning⟩, false⟩
    let turns :=
      (creationFiles.flatMap fun file => (creationJob.file file.1 file.2).steps).length + 2
    let rounds := start.exec .continue (List.replicate turns [0, 1]).flatten
    let backwards := start.exec .continue (List.replicate turns 1 ++ List.replicate turns 0)
    Prefix.validate (some "Humbug".toList) = .ok "Humbug".toList
      ∧ creationJob.prefixer.NamesWellFormed ∧ rounds.IsOver ∧ backwards.IsOver ∧ rounds.reports = backwards.reports
      ∧ (∀ key, rounds.progress.run.registry.target? key
        = backwards.progress.run.registry.target? key)
      ∧ rounds.reports = creationFiles.map fun file => reportOf file.1
        ((creationJob.file file.1 file.2).run ⟨.empty, .withThreshold .warning⟩).1 := by
  intro start turns rounds backwards
  have hroot : Prefix.validate (some "Humbug".toList) = .ok "Humbug".toList := by decide +kernel
  have hnames : creationJob.prefixer.NamesWellFormed := namesWellFormed_creationPrefixer
  have hgiven : creationJob.given = some "Humbug".toList := rfl
  obtain ⟨hends, hsame⟩ :=
    schedule_irrelevant hgiven hroot hnames creationFiles (.withThreshold .warning)
  have hfair : ∀ schedule : List Nat, schedule.count 0 = turns → schedule.count 1 = turns →
      start.IsFair schedule := by
    intro schedule hzero hone
    refine State.isFair_start fun index (hindex : index < 2) => ?_
    match index with
    | 0 => exact Nat.le_of_eq hzero.symm
    | 1 => exact Nat.le_of_eq hone.symm
  have hrounds : rounds.IsOver := by
    refine hends _ (hfair _ ?_ ?_)
    · simp [List.count_flatten]
    · simp [List.count_flatten]
  have hbackwards : backwards.IsOver := by
    refine hends _ (hfair _ ?_ ?_)
    · simp [List.count_replicate]
    · simp [List.count_replicate]
  obtain ⟨hreports, htargets, halone, -⟩ := hsame _ _ hrounds hbackwards
  exact ⟨hroot, hnames, hrounds, hbackwards, hreports, htargets, halone⟩

end Batch

end PhpPrefixer
