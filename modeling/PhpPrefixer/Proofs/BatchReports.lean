import Mathlib.Data.List.Forall2
import PhpPrefixer.Proofs.Crews

/-!
# What a batch reports

A batch is stopped by a conflict, and with the strategy that stops also by a file that fails. So at each
moment the batch is stopped just if some file has ended in such a way, and a file is skipped only then. Any
other file ends as its own work does, or with a conflict. This is kept by each turn
(`Batch.State.IsAccounted.advance`), and so by each schedule of any crew; the report on the batch is read off
at its end: `Batch.batch_accounts`.
-/

namespace PhpPrefixer.Batch

/-- Whether the end of a file stops the batch. -/
def Strategy.isStoppedBy (strategy : Strategy) : Except Failure FileReport → Bool
  | .error (.conflict _) => true
  | .error _ => false
  | .ok ⟨_, .failed _⟩ => strategy = .stop
  | .ok _ => false

/-- Whether a file was skipped. -/
def isSkipped : Except Failure FileReport → Bool
  | .ok ⟨_, .skipped⟩ => true
  | _ => false

/-- With the strategy that goes on, nothing but a conflict stops a batch. -/
theorem exists_conflict_of_isStoppedBy {report : Except Failure FileReport}
    (h : Strategy.isStoppedBy .continue report = true) : ∃ c, report = .error (.conflict c) := by
  match report with
  | .error (.conflict c) => exact ⟨c, rfl⟩

/-- The end of a file whose steps were all taken. -/
theorem exists_step_eq (strategy : Strategy) (outcome : Except Failure Text) (path : Text) (run : Run) :
    ∃ after, step strategy ⟨[], outcome⟩ path ⟨run, false⟩
      = (reportOf path outcome, ⟨after, strategy.isStoppedBy (reportOf path outcome)⟩) := by
  cases outcome with
  | ok t => exact ⟨run, rfl⟩
  | error f =>
    cases f with
    | _ => exact ⟨_, rfl⟩

namespace Item

/-- What a report on a file can be: the file was skipped because the batch was stopped, or it met a conflict,
or its own work ended so. -/
inductive Explains (item : Item) (stopped : Bool) : Except Failure FileReport → Prop where
  /-- The batch was stopped before the file was started. -/
  | skipped (h : stopped = true) : Explains item stopped (.ok ⟨item.path, .skipped⟩)
  /-- The file met a conflict. -/
  | conflict (c : Conflict) : Explains item stopped (.error (.conflict c))
  /-- The work came to its own end. -/
  | ended : Explains item stopped (reportOf item.path item.work.outcome)

/-- Whether the end of a file has stopped the batch. -/
def hasStopped (strategy : Strategy) (item : Item) : Bool := item.report?.any strategy.isStoppedBy

/-- What a turn can do: the file is over already; or its work goes on; or it comes to an end that is
explained, and the batch is stopped just if it was or if this end stops it. -/
theorem turn_cases (strategy : Strategy) (item : Item) (p : Progress) :
    item.turn strategy p = (item, p)
      ∨ (∃ taken rest run, item.report? = none
        ∧ item.turn strategy p = (item.withStanding (.working taken rest), ⟨run, p.stopped⟩))
      ∨ ∃ report run, item.report? = none ∧ item.Explains p.stopped report
        ∧ item.turn strategy p = (item.withStanding (.finished report),
          ⟨run, p.stopped || strategy.isStoppedBy report⟩) := by
  obtain ⟨path, work, standing⟩ := item
  obtain ⟨run, stopped⟩ := p
  cases standing with
  | waiting =>
    cases stopped with
    | true => exact .inr (.inr ⟨_, run, rfl, .skipped rfl, rfl⟩)
    | false => exact .inr (.inl ⟨[], work.steps, run, rfl, rfl⟩)
  | working taken rest =>
    cases rest with
    | nil =>
      obtain ⟨after, hstep⟩ := exists_step_eq strategy work.outcome path run
      refine .inr (.inr ⟨_, after, rfl, .ended, ?_⟩)
      simp only [turn, withStanding, hstep]
    | cons step rest =>
      cases htake : run.take step with
      | ok run' =>
        refine .inr (.inl ⟨taken ++ [step], rest, run', rfl, ?_⟩)
        simp only [turn, htake, withStanding]
      | error c =>
        refine .inr (.inr ⟨_, run, rfl, .conflict c, ?_⟩)
        simp only [turn, htake, withStanding, Strategy.isStoppedBy, Bool.or_true]
  | finished report => exact .inl rfl

/-- A report that is explained stays explained when the batch is stopped later. -/
theorem Explains.mono {item : Item} {stopped later : Bool} {report : Except Failure FileReport}
    (h : item.Explains stopped report) (hle : stopped = true → later = true) :
    item.Explains later report := by
  cases h with
  | skipped hstopped => exact .skipped (hle hstopped)
  | conflict c => exact .conflict c
  | ended => exact .ended

/-- What explains a report does not depend on how the work on the file stands. -/
theorem Explains.withStanding {item : Item} {stopped : Bool} {report : Except Failure FileReport}
    (h : item.Explains stopped report) (standing : Standing) :
    (item.withStanding standing).Explains stopped report := by
  cases h with
  | skipped hstopped => exact .skipped hstopped
  | conflict c => exact .conflict c
  | ended => exact .ended

end Item

namespace State

/-- A batch is stopped just if some file has stopped it, and every report on a file is explained. -/
structure IsAccounted (strategy : Strategy) (s : State) : Prop where
  /-- The batch is stopped by the ends of its files only. -/
  stopped : s.progress.stopped = s.items.any (Item.hasStopped strategy)
  /-- Every report is explained. -/
  explained : ∀ item ∈ s.items, ∀ report, item.report? = some report →
    item.Explains s.progress.stopped report

/-- A batch that has not begun is accounted for. -/
theorem isAccounted_start (strategy : Strategy) (work : Text → Text → Plan Text)
    (files : List (Text × Text)) (run : Run) :
    (start work files ⟨run, false⟩).IsAccounted strategy where
  stopped := by
    have hnone : ∀ item ∈ (start work files ⟨run, false⟩).items, ¬item.hasStopped strategy = true := by
      intro item hitem
      obtain ⟨file, -, rfl⟩ := List.mem_map.mp hitem
      exact Bool.false_ne_true
    exact (List.any_eq_false.mpr hnone).symm
  explained item hitem report hreport := by
    obtain ⟨file, -, rfl⟩ := List.mem_map.mp hitem
    cases hreport

variable {strategy : Strategy} {s : State}

/-- A file that is not over may go on, or come to an end that is explained. -/
theorem IsAccounted.replace {p : Progress} {before after : List Item} {item later : Item} {q : Progress}
    (h : IsAccounted strategy ⟨p, before ++ item :: after⟩) (hnone : item.report? = none)
    (hstopped : q.stopped = (p.stopped || later.hasStopped strategy))
    (hexplained : ∀ report, later.report? = some report → later.Explains q.stopped report) :
    IsAccounted strategy ⟨q, before ++ later :: after⟩ := by
  have hold : item.hasStopped strategy = false := by rw [Item.hasStopped, hnone]; rfl
  have hcount := h.stopped
  have hothers := h.explained
  simp only [List.any_append, List.any_cons, hold, Bool.false_or] at hcount
  rw [List.forall_mem_append, List.forall_mem_cons] at hothers
  have hle : p.stopped = true → q.stopped = true := by
    intro hp
    rw [hstopped, hp, Bool.true_or]
  constructor
  · simp only [List.any_append, List.any_cons]
    rw [hstopped, hcount]
    cases before.any (Item.hasStopped strategy) with
    | true => rfl
    | false => exact Bool.or_comm ..
  · refine List.forall_mem_append.mpr ⟨?_, List.forall_mem_cons.mpr ⟨hexplained, ?_⟩⟩
    · exact fun other hother report hreport => (hothers.1 other hother report hreport).mono hle
    · exact fun other hother report hreport => (hothers.2.2 other hother report hreport).mono hle

/-- Every turn keeps the account. -/
theorem IsAccounted.advance (h : s.IsAccounted strategy) (index : Nat) :
    (s.advance strategy index).IsAccounted strategy := by
  cases hitem : s.items[index]? with
  | none =>
    have hsame : s.advance strategy index = s := by simp only [State.advance, hitem]
    rw [hsame]
    exact h
  | some item =>
    obtain ⟨before, after, hsplit, hadvance⟩ := @exists_advance_eq strategy s index item hitem
    have hstate : s = ⟨s.progress, before ++ item :: after⟩ := by rw [← hsplit]
    rw [hadvance]
    rw [hstate] at h
    obtain hturn | ⟨taken, rest, run, hnone, hturn⟩ | ⟨report, run, hnone, hexplained, hturn⟩ :=
      item.turn_cases strategy s.progress
    · rw [hturn]
      exact h
    · rw [hturn]
      refine h.replace hnone (Bool.or_false _).symm fun report hreport => ?_
      cases hreport
    · rw [hturn]
      refine h.replace hnone rfl fun other hother => ?_
      cases hother
      refine (hexplained.withStanding _).mono fun hstopped => ?_
      rw [hstopped, Bool.true_or]

/-- Whatever turns are taken, a batch stays accounted for. -/
theorem IsAccounted.exec (h : s.IsAccounted strategy) (schedule : List Nat) :
    (s.exec strategy schedule).IsAccounted strategy := by
  induction schedule generalizing s with
  | nil => exact h
  | cons index schedule ih => exact ih (h.advance index)

end State

/-- A step skips its file just if the batch was stopped, and the batch is stopped after it if it was before
or if the end of the file stops it. -/
theorem step_cases (strategy : Strategy) (work : Plan Text) (path : Text) (p : Progress) :
    isSkipped (step strategy work path p).1 = p.stopped
      ∧ (step strategy work path p).2.stopped
        = (p.stopped || strategy.isStoppedBy (step strategy work path p).1) := by
  obtain ⟨run, stopped⟩ := p
  cases stopped with
  | true => exact ⟨rfl, rfl⟩
  | false =>
    simp only [step, Bool.false_eq_true, if_false, Bool.false_or]
    obtain ⟨outcome, after⟩ := work.run run
    cases outcome with
    | ok t => exact ⟨rfl, rfl⟩
    | error f =>
      cases f with
      | _ => exact ⟨rfl, rfl⟩

/-- One file is worked on, and then the others with what it led to. -/
theorem steps_cons (strategy : Strategy) (work : Text → Text → Plan Text) (path contents : Text)
    (files : List (Text × Text)) (p : Progress) :
    (steps strategy work ((path, contents) :: files) p).1
      = (step strategy (work path contents) path p).1
        :: (steps strategy work files (step strategy (work path contents) path p).2).1 := rfl

/-- Files that are worked on one after the other are skipped just behind one that stops the batch. -/
theorem isSkipped_steps {strategy : Strategy} {work : Text → Text → Plan Text}
    {files : List (Text × Text)} {p : Progress} {index : Nat} {report : Except Failure FileReport}
    (h : (steps strategy work files p).1[index]? = some report) :
    isSkipped report = true ↔ p.stopped = true ∨ ∃ earlier < index, ∃ other,
      (steps strategy work files p).1[earlier]? = some other ∧ strategy.isStoppedBy other = true := by
  induction files generalizing p index with
  | nil => cases h
  | cons file files ih =>
    obtain ⟨path, contents⟩ := file
    obtain ⟨hskipped, hstopped⟩ := step_cases strategy (work path contents) path p
    rw [steps_cons] at h ⊢
    cases index with
    | zero =>
      rw [List.getElem?_cons_zero, Option.some_inj] at h
      rw [← h, hskipped]
      refine ⟨.inl, ?_⟩
      rintro (hp | ⟨earlier, hearlier, -⟩)
      · exact hp
      · exact absurd hearlier (Nat.not_lt_zero _)
    | succ index =>
      rw [List.getElem?_cons_succ] at h
      rw [ih h, hstopped, Bool.or_eq_true, or_assoc]
      refine or_congr_right ⟨?_, ?_⟩
      · rintro (hfirst | ⟨earlier, hearlier, other, hother, hstops⟩)
        · exact ⟨0, Nat.succ_pos _, _, rfl, hfirst⟩
        · exact ⟨earlier + 1, Nat.succ_lt_succ hearlier, other, hother, hstops⟩
      · rintro ⟨earlier, hearlier, other, hother, hstops⟩
        cases earlier with
        | zero =>
          rw [List.getElem?_cons_zero, Option.some_inj] at hother
          exact .inl (hother ▸ hstops)
        | succ earlier => exact .inr ⟨earlier, Nat.lt_of_succ_lt_succ hearlier, other, hother, hstops⟩

/-- Reports are collected from the first on. -/
theorem mapM_id_cons (report : Except Failure FileReport) (reports : List (Except Failure FileReport)) :
    (report :: reports).mapM id
      = report >>= fun file => reports.mapM id >>= fun rest => .ok (file :: rest) := List.mapM_cons

/-- Reports are collected just if none of them is a failure. -/
theorem mapM_eq_ok_iff {reports : List (Except Failure FileReport)} {files : List FileReport} :
    reports.mapM id = .ok files ↔ reports = files.map .ok := by
  induction reports generalizing files with
  | nil =>
    cases files with
    | nil => exact ⟨fun _ => rfl, fun _ => rfl⟩
    | cons file files => exact ⟨nofun, nofun⟩
  | cons report reports ih =>
    rw [mapM_id_cons]
    cases report with
    | error f =>
      refine ⟨nofun, fun h => ?_⟩
      cases files with
      | nil => cases h
      | cons file files => cases h
    | ok file =>
      cases files with
      | nil =>
        refine ⟨fun h => ?_, nofun⟩
        cases hrest : reports.mapM id with
        | error f =>
          rw [hrest] at h
          cases h
        | ok rest =>
          rw [hrest] at h
          cases h
      | cons first files =>
        rw [List.map_cons, List.cons_eq_cons, ← ih]
        cases reports.mapM id with
        | error f => exact ⟨nofun, fun h => nomatch h.2⟩
        | ok rest => simp [bind, Except.bind]

/-- The failure that collecting reports ends with is one of them. -/
theorem mem_of_mapM_eq_error {reports : List (Except Failure FileReport)} {f : Failure}
    (h : reports.mapM id = .error f) : .error f ∈ reports := by
  induction reports with
  | nil => cases h
  | cons report reports ih =>
    rw [mapM_id_cons] at h
    cases report with
    | error first =>
      cases h
      exact List.mem_cons_self
    | ok file =>
      cases hrest : reports.mapM id with
      | error later =>
        rw [hrest] at h
        cases h
        exact List.mem_cons_of_mem _ (ih hrest)
      | ok rest =>
        rw [hrest] at h
        cases h

/-- There is a report on a batch just if there is one on each file. -/
theorem collect_eq_ok_iff {reports : List (Except Failure FileReport)} {report : Report} :
    collect reports = .ok report ↔ reports = report.files.map .ok := by
  rw [collect, ← mapM_eq_ok_iff]
  obtain ⟨files⟩ := report
  cases reports.mapM id with
  | error f => exact ⟨nofun, nofun⟩
  | ok rest => simp [Except.map]

/-- A batch fails with the failure of some file. -/
theorem mem_of_collect_eq_error {reports : List (Except Failure FileReport)} {f : Failure}
    (h : collect reports = .error f) : .error f ∈ reports := by
  refine mem_of_mapM_eq_error ?_
  rw [collect] at h
  cases hreports : reports.mapM id with
  | error first =>
    rw [hreports] at h
    cases h
    rfl
  | ok files =>
    rw [hreports] at h
    cases h

/-- A batch fails if some file does. -/
theorem exists_collect_eq_error {reports : List (Except Failure FileReport)} {f : Failure}
    (h : .error f ∈ reports) : ∃ first, collect reports = .error first := by
  cases hcollect : collect reports with
  | error first => exact ⟨first, rfl⟩
  | ok report =>
    rw [collect_eq_ok_iff.mp hcollect] at h
    obtain ⟨r, -, hr⟩ := List.mem_map.mp h
    cases hr

/-- Every file is moved, failed or skipped. -/
theorem Report.length_files (report : Report) :
    report.moved.length + report.failures.length + report.skipped.length = report.files.length := by
  obtain ⟨files⟩ := report
  induction files with
  | nil => rfl
  | cons file files ih =>
    obtain ⟨path, fate⟩ := file
    let rest : Report := ⟨files⟩
    have hrest : rest.moved.length + rest.failures.length + rest.skipped.length = files.length := ih
    cases fate with
    | moved t =>
      change rest.moved.length + 1 + rest.failures.length + rest.skipped.length = files.length + 1
      omega
    | failed message =>
      change rest.moved.length + (rest.failures.length + 1) + rest.skipped.length = files.length + 1
      omega
    | skipped =>
      change rest.moved.length + rest.failures.length + (rest.skipped.length + 1) = files.length + 1
      omega

/-- The report on a batch accounts for its files. -/
structure Report.Accounts (strategy : Strategy) (work : Text → Text → Plan Text)
    (files : List (Text × Text)) (report : Report) : Prop where
  /-- There is one report for each file, in the order of the files and with its path: the file was skipped, or
  its own work ended so. -/
  each : List.Forall₂ (fun file r => r.path = file.1 ∧ (r.fate = .skipped
    ∨ reportOf file.1 (work file.1 file.2).outcome = .ok r)) files report.files
  /-- Every file is counted once. -/
  counted : report.moved.length + report.failures.length + report.skipped.length = files.length
  /-- The batch succeeds just if all files were moved. -/
  success_iff : report.success = true ↔ ∀ r ∈ report.files, ∃ t, r.fate = .moved t
  /-- Files are skipped only with the strategy that stops, and only if a file has failed. -/
  skipped : (∃ r ∈ report.files, r.fate = .skipped) →
    strategy = .stop ∧ ∃ r ∈ report.files, ∃ message, r.fate = .failed message

/-- A report on a file that was worked on is about this file, and does not say that it was skipped. -/
theorem reportOf_eq_ok {path : Text} {outcome : Except Failure Text} {r : FileReport}
    (h : reportOf path outcome = .ok r) : r.path = path ∧ r.fate ≠ .skipped := by
  cases outcome with
  | ok t =>
    cases h
    exact ⟨rfl, nofun⟩
  | error f =>
    simp only [reportOf] at h
    split at h
    · cases h
      exact ⟨rfl, nofun⟩
    · cases h

/-- A batch succeeds if every file was moved. -/
theorem Report.success_eq_true_iff (report : Report) :
    report.success = true ↔ ∀ r ∈ report.files, ∃ t, r.fate = .moved t := by
  rw [success, List.all_eq_true]
  refine forall₂_congr fun r _ => ?_
  cases r.fate with
  | moved t => exact ⟨fun _ => ⟨t, rfl⟩, fun _ => rfl⟩
  | failed message => exact ⟨nofun, nofun⟩
  | skipped => exact ⟨nofun, nofun⟩

/-- A file that met no conflict was skipped because the batch was stopped, or its own work ended so. -/
theorem Item.Explains.of_ok {item : Item} {stopped : Bool} {r : FileReport}
    (h : item.Explains stopped (.ok r)) :
    r.path = item.path ∧ ((r.fate = .skipped ∧ stopped = true)
      ∨ (r.fate ≠ .skipped ∧ reportOf item.path item.work.outcome = .ok r)) := by
  generalize hreport : Except.ok r = report at h
  cases h with
  | skipped hstopped =>
    cases hreport
    exact ⟨rfl, .inl ⟨rfl, hstopped⟩⟩
  | conflict c => cases hreport
  | ended =>
    obtain ⟨hpath, hfate⟩ := reportOf_eq_ok hreport.symm
    exact ⟨hpath, .inr ⟨hfate, rfl⟩⟩

/-- A file that has no report met a conflict, or its own work ended so. -/
theorem Item.Explains.of_error {item : Item} {stopped : Bool} {f : Failure}
    (h : item.Explains stopped (.error f)) :
    (∃ c, f = .conflict c) ∨ reportOf item.path item.work.outcome = .error f := by
  generalize hreport : Except.error f = report at h
  cases h with
  | skipped hstopped => cases hreport
  | conflict c =>
    cases hreport
    exact .inl ⟨c, rfl⟩
  | ended => exact .inr rfl

namespace State

variable {strategy : Strategy} {s : State}

/-- All files of a batch that is over have reports. -/
theorem map_report?_of_isOver (h : s.IsOver) : s.items.map Item.report? = s.reports.map some := by
  rw [reports, List.map_filterMap_some_eq_filter_map_isSome, eq_comm, List.filter_eq_self]
  intro report hreport
  obtain ⟨item, hitem, rfl⟩ := List.mem_map.mp hreport
  exact h item hitem

/-- Where there is a report on the batch, the reports on its files are in it. -/
theorem map_report?_of_collect (h : s.IsOver) {report : Report} (hreport : collect s.reports = .ok report) :
    s.items.map Item.report? = report.files.map fun r => some (.ok r) := by
  rw [map_report?_of_isOver h, collect_eq_ok_iff.mp hreport, List.map_map]
  rfl

/-- Every report of a batch belongs to one of its files. -/
theorem exists_item {report : Report} (h : s.items.map Item.report? = report.files.map fun r => some (.ok r))
    {r : FileReport} (hr : r ∈ report.files) : ∃ item ∈ s.items, item.report? = some (.ok r) := by
  have hmem : some (.ok r) ∈ s.items.map Item.report? := by
    rw [h]
    exact List.mem_map_of_mem hr
  exact List.mem_map.mp hmem

/-- Every file of a batch has its report. -/
theorem exists_file {report : Report} (h : s.items.map Item.report? = report.files.map fun r => some (.ok r))
    {item : Item} (hitem : item ∈ s.items) : ∃ r ∈ report.files, item.report? = some (.ok r) := by
  have hmem : item.report? ∈ report.files.map fun r => some (.ok r) := by
    rw [← h]
    exact List.mem_map_of_mem hitem
  obtain ⟨r, hr, heq⟩ := List.mem_map.mp hmem
  exact ⟨r, hr, heq.symm⟩

/-- A batch that is stopped although it met no conflict is stopped by a file that failed. -/
theorem IsAccounted.exists_failed (hs : s.IsAccounted strategy) {report : Report}
    (h : s.items.map Item.report? = report.files.map fun r => some (.ok r))
    (hstopped : s.progress.stopped = true) :
    strategy = .stop ∧ ∃ r ∈ report.files, ∃ message, r.fate = .failed message := by
  rw [hs.stopped, List.any_eq_true] at hstopped
  obtain ⟨item, hitem, hstops⟩ := hstopped
  obtain ⟨⟨path, fate⟩, hr, hreport⟩ := exists_file h hitem
  rw [Item.hasStopped, hreport] at hstops
  cases fate with
  | moved t => cases hstops
  | failed message => exact ⟨of_decide_eq_true hstops, _, hr, message, rfl⟩
  | skipped => cases hstops

/-- A batch fails by a conflict, or because the work on some file fails in a way that is not a file's own. -/
theorem IsAccounted.of_error (hs : s.IsAccounted strategy) {work : Text → Text → Plan Text}
    {files : List (Text × Text)} (hlabels : s.items.map (fun item => (item.path, item.work))
      = files.map fun file => (file.1, work file.1 file.2)) {f : Failure} (h : .error f ∈ s.reports) :
    (∃ c, f = .conflict c)
      ∨ ∃ file ∈ files, reportOf file.1 (work file.1 file.2).outcome = .error f := by
  obtain ⟨item, hitem, hreport⟩ := List.mem_filterMap.mp h
  refine (hs.explained item hitem _ hreport).of_error.imp_right fun hended => ?_
  have hlabel : (item.path, item.work) ∈ files.map fun file => (file.1, work file.1 file.2) := by
    rw [← hlabels]
    exact List.mem_map_of_mem hitem
  obtain ⟨file, hfile, heq⟩ := List.mem_map.mp hlabel
  rw [← (Prod.mk.inj heq).1, ← (Prod.mk.inj heq).2] at hended
  exact ⟨file, hfile, hended⟩

/-- The report on a batch that is over accounts for its files. -/
theorem IsAccounted.accounts (hs : s.IsAccounted strategy) (hover : s.IsOver)
    {work : Text → Text → Plan Text} {files : List (Text × Text)}
    (hlabels : s.items.map (fun item => (item.path, item.work))
      = files.map fun file => (file.1, work file.1 file.2))
    {report : Report} (hreport : collect s.reports = .ok report) : report.Accounts strategy work files := by
  have hreports := map_report?_of_collect hover hreport
  have hlength : report.files.length = files.length := by
    have hitems := congrArg List.length hreports
    have hfiles := congrArg List.length hlabels
    simp only [List.length_map] at hitems hfiles
    omega
  refine ⟨?_, report.length_files.trans hlength, report.success_eq_true_iff, ?_⟩
  · have hpairs : List.Forall₂ (fun item r => item.report? = some (.ok r)) s.items report.files := by
      have heq : List.Forall₂ Eq (s.items.map Item.report?) (report.files.map fun r => some (.ok r)) :=
        List.forall₂_eq_eq_eq ▸ hreports
      exact List.forall₂_map_right_iff.mp (List.forall₂_map_left_iff.mp heq)
    have hexplained : List.Forall₂ (fun label r => r.path = label.1 ∧ (r.fate = .skipped
        ∨ reportOf label.1 label.2.outcome = .ok r))
        (s.items.map fun item => (item.path, item.work)) report.files := by
      refine List.forall₂_map_left_iff.mpr (List.Forall₂.imp ?_
        ((List.forall₂_and_left _ _).mpr ⟨hs.explained, hpairs⟩))
      rintro item r ⟨hitem, hr⟩
      obtain ⟨hpath, hended⟩ := (hitem _ hr).of_ok
      exact ⟨hpath, hended.imp And.left And.right⟩
    rw [hlabels] at hexplained
    exact List.forall₂_map_left_iff.mp hexplained
  · rintro ⟨r, hr, hskipped⟩
    obtain ⟨item, hitem, hitemReport⟩ := exists_item hreports hr
    refine hs.exists_failed hreports ?_
    obtain ⟨-, ⟨-, hstopped⟩ | ⟨hother, -⟩⟩ := (hs.explained item hitem _ hitemReport).of_ok
    · exact hstopped
    · exact absurd hskipped hother

end State

/-- With the strategy that stops, a single worker skips just the files behind one that failed. -/
theorem skipped_iff_of_single {work : Text → Text → Plan Text} {files : List (Text × Text)} {p : Progress}
    (hp : p.stopped = false) {report : Report}
    (hreport : collect (steps .stop work files p).1 = .ok report) {index : Nat} {r : FileReport}
    (hr : report.files[index]? = some r) :
    r.fate = .skipped ↔ ∃ earlier < index, ∃ other message,
      report.files[earlier]? = some other ∧ other.fate = .failed message := by
  have hsteps := collect_eq_ok_iff.mp hreport
  have hat : (steps .stop work files p).1[index]? = some (.ok r) := by
    rw [hsteps, List.getElem?_map, hr]
    rfl
  have hskipped : isSkipped (.ok r) = true ↔ r.fate = .skipped := by
    obtain ⟨path, fate⟩ := r
    cases fate with
    | moved t => exact ⟨nofun, nofun⟩
    | failed message => exact ⟨nofun, nofun⟩
    | skipped => exact ⟨fun _ => rfl, fun _ => rfl⟩
  rw [← hskipped, isSkipped_steps hat, hp, hsteps]
  constructor
  · rintro (hfalse | ⟨earlier, hearlier, other, hother, hstops⟩)
    · cases hfalse
    · rw [List.getElem?_map] at hother
      obtain ⟨⟨path, fate⟩, hfile, rfl⟩ := Option.map_eq_some_iff.mp hother
      cases fate with
      | moved t => cases hstops
      | failed message => exact ⟨earlier, hearlier, _, message, hfile, rfl⟩
      | skipped => cases hstops
  · rintro ⟨earlier, hearlier, ⟨path, fate⟩, message, hfile, hfailed⟩
    cases hfailed
    refine .inr ⟨earlier, hearlier, .ok ⟨path, .failed message⟩, ?_, rfl⟩
    rw [List.getElem?_map, hfile]
    rfl

/-- Every crew of workers accounts for all files of a batch, whatever they do and whoever has the next turn.
The batch comes to its end in enough rounds in which all workers have turns. Whatever schedule has brought it
there, the batch fails if a file met a conflict, and it fails only by a conflict or by a failure that is not a
file's own; if it does not fail, its report accounts for its files. With a single worker the batch goes as if
its files were worked on one after the other, so with the strategy that stops, the files that are skipped are
just those behind the first one that failed. -/
theorem batch_accounts (strategy : Strategy) (work : Text → Text → Plan Text)
    (files : List (Text × Text)) (workers : Nat) (hworkers : 1 ≤ workers) (run : Run) :
    let start := Crew.start work files workers run
    (∀ rounds : List (List Nat), (∀ round ∈ rounds, ∀ worker < workers, worker ∈ round) →
        start.left ≤ rounds.length → (start.exec strategy rounds.flatten).state.IsOver)
      ∧ ∀ schedule, (start.exec strategy schedule).state.IsOver →
        let reports := (start.exec strategy schedule).state.reports
        (∀ c, .error (.conflict c) ∈ reports → ∃ f, collect reports = .error f)
          ∧ (∀ f, collect reports = .error f → (∃ c, f = .conflict c)
            ∨ ∃ file ∈ files, reportOf file.1 (work file.1 file.2).outcome = .error f)
          ∧ (∀ report, collect reports = .ok report → report.Accounts strategy work files)
          ∧ (workers = 1 → reports = (steps strategy work files ⟨run, false⟩).1
            ∧ (strategy = .stop → ∀ report, collect reports = .ok report →
              ∀ (index : Nat) (r : FileReport), report.files[index]? = some r →
                (r.fate = .skipped ↔ ∃ earlier < index, ∃ other message,
                  report.files[earlier]? = some other ∧ other.fate = .failed message))) := by
  intro start
  refine ⟨fun rounds => Crew.isOver_of_rounds hworkers, fun schedule hover => ?_⟩
  obtain ⟨turns, hturns⟩ := start.exists_exec_eq strategy schedule
  have haccounted : (start.exec strategy schedule).state.IsAccounted strategy := by
    rw [hturns]
    exact (State.isAccounted_start strategy work files run).exec turns
  have hlabels : (start.exec strategy schedule).state.items.map (fun item => (item.path, item.work))
      = files.map fun file => (file.1, work file.1 file.2) := by
    rw [hturns, State.map_exec]
    exact List.map_map
  refine ⟨fun c => exists_collect_eq_error, ?_, fun report => haccounted.accounts hover hlabels, ?_⟩
  · exact fun f hf => haccounted.of_error hlabels (mem_of_collect_eq_error hf)
  · rintro rfl
    have hreports := (Crew.reports_of_single hover).1
    refine ⟨hreports, ?_⟩
    rintro rfl report hreport index r hr
    rw [hreports] at hreport
    exact skipped_iff_of_single rfl hreport hr

/-- Work that fails on `?`, and renames one class to every other text. -/
def trialWork (path contents : Text) : Plan Text :=
  if contents = "?".toList then ⟨[], .error (.unsupported ⟨path, 1, "unknown"⟩)⟩
  else ⟨[.record ⟨"A".toList, contents, .classLike, some path⟩], .ok contents⟩

/-- Three files, of which the second one fails. -/
def failingFiles : List (Text × Text) :=
  [("a.php".toList, "X".toList), ("b.php".toList, "?".toList), ("c.php".toList, "X".toList)]

/-- The report of a single worker that stops. -/
def failingReport : Report where
  files := [⟨"a.php".toList, .moved "X".toList⟩,
    ⟨"b.php".toList, .failed (Unsupported.message ⟨"b.php".toList, 1, "unknown"⟩)⟩,
    ⟨"c.php".toList, .skipped⟩]

/-- Two files that rename one class differently. -/
def conflictingFiles : List (Text × Text) :=
  [("a.php".toList, "X".toList), ("b.php".toList, "Y".toList)]

/-- A single worker that fails on the second file skips the third one, and two workers on files that rename
one class differently fail. -/
theorem batch_accounts_trials :
    let run : Run := ⟨.empty, .withThreshold .warning⟩
    let alone := Crew.start trialWork failingFiles 1 run
    let stopped := (alone.exec .stop (List.replicate 11 [0]).flatten).state
    let pair := Crew.start trialWork conflictingFiles 2 run
    let raced := (pair.exec .continue (List.replicate 8 [0, 1]).flatten).state
    (stopped.IsOver ∧ collect stopped.reports = .ok failingReport
        ∧ failingReport.Accounts .stop trialWork failingFiles
        ∧ ∃ earlier < 2, ∃ other message,
          failingReport.files[earlier]? = some other ∧ other.fate = .failed message)
      ∧ raced.IsOver ∧ ∃ f, collect raced.reports = .error f := by
  intro run alone stopped pair raced
  obtain ⟨hends, haccounts⟩ := batch_accounts .stop trialWork failingFiles 1 (by decide) run
  obtain ⟨hpairEnds, hpair⟩ := batch_accounts .continue trialWork conflictingFiles 2 (by decide) run
  have hround : ∀ {n workers : Nat} {round : List Nat}, (∀ worker < workers, worker ∈ round) →
      ∀ other ∈ List.replicate n round, ∀ worker < workers, worker ∈ other := by
    intro n workers round hall other hother
    rw [List.eq_of_mem_replicate hother]
    exact hall
  have hstopped : stopped.IsOver := hends _ (hround (by decide)) (by decide)
  have hraced : raced.IsOver := hpairEnds _ (hround (by decide)) (by decide)
  obtain ⟨-, -, hreport, hsingle⟩ := haccounts _ hstopped
  obtain ⟨hsteps, hskipped⟩ := hsingle rfl
  have hcollect : collect stopped.reports = .ok failingReport := by
    rw [hsteps]
    rfl
  refine ⟨⟨hstopped, hcollect, hreport _ hcollect, ?_⟩, hraced, ?_⟩
  · exact (hskipped rfl _ hcollect 2 ⟨"c.php".toList, .skipped⟩ rfl).mp rfl
  · have hstops : raced.reports.any (Strategy.isStoppedBy .continue) = true := by decide +kernel
    obtain ⟨report, hmem, hstop⟩ := List.any_eq_true.mp hstops
    obtain ⟨c, rfl⟩ := exists_conflict_of_isStoppedBy hstop
    exact (hpair _ hraced).1 c hmem

end PhpPrefixer.Batch
