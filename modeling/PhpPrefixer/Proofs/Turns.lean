import PhpPrefixer.Batch

/-!
# Batches in turns

The files of a batch are worked on at the same time. In each turn the work on one file goes on by one
thing that others can see: it is started, which looks whether the batch was stopped; it takes a step,
which is seen by all; or it ends, which may stop the batch. A schedule says whose turn it is, so every
order of the files and every interleaving of their steps is some schedule.

Each turn brings the file it is given to nearer to its end, so a schedule with enough turns for each
file ends the batch: `State.isOver_of_isFair`. If the files are worked on one after the other, the
batch goes as `Batch.steps` says: `State.exec_inOrder`. So what `Batch.run` gives is the end of one
schedule: `exists_run_eq`.
-/

namespace PhpPrefixer.Batch

/-- How far the work on a file has come. -/
inductive Standing where
  /-- It has not been started. -/
  | waiting
  /-- It has taken some steps, and others are left. -/
  | working (taken rest : List Step)
  /-- It is over. -/
  | finished (report : Except Failure FileReport)

/-- A file of a batch. -/
structure Item where
  /-- The path of the file. -/
  path : Text
  /-- The work on the file. -/
  work : Plan Text
  /-- How far the work has come. -/
  standing : Standing

/-- The report on a file whose work comes to its own end. -/
def reportOf (path : Text) : Except Failure Text → Except Failure FileReport
  | .ok t => .ok ⟨path, .moved t⟩
  | .error f => if f.ofFile then .ok ⟨path, .failed f.message⟩ else .error f

namespace Item

/-- The file with its work at another standing. -/
def withStanding (item : Item) (standing : Standing) : Item := { item with standing }

/-- One turn of the work on a file. The end of the work is told as for a file with no steps left. -/
def turn (strategy : Strategy) (item : Item) (p : Progress) : Item × Progress :=
  match item.standing with
  | .waiting =>
    if p.stopped then (item.withStanding (.finished (.ok ⟨item.path, .skipped⟩)), p)
    else (item.withStanding (.working [] item.work.steps), p)
  | .working taken (step :: rest) =>
    match p.run.take step with
    | .ok run => (item.withStanding (.working (taken ++ [step]) rest), ⟨run, p.stopped⟩)
    | .error c => (item.withStanding (.finished (.error (.conflict c))), ⟨p.run, true⟩)
  | .working _ [] =>
    let (report, q) := step strategy ⟨[], item.work.outcome⟩ item.path ⟨p.run, false⟩
    (item.withStanding (.finished report), ⟨q.run, p.stopped || q.stopped⟩)
  | .finished _ => (item, p)

/-- Some turns of the work on one file alone. -/
def turns (strategy : Strategy) : Nat → Item → Progress → Item × Progress
  | 0, item, p => (item, p)
  | n + 1, item, p => turns strategy n (item.turn strategy p).1 (item.turn strategy p).2

/-- The report on a file whose work is over. -/
def report? (item : Item) : Option (Except Failure FileReport) :=
  match item.standing with
  | .finished report => some report
  | _ => none

/-- The most turns that are left until the work is over. -/
def left (item : Item) : Nat :=
  match item.standing with
  | .waiting => item.work.steps.length + 2
  | .working _ rest => rest.length + 1
  | .finished _ => 0

variable {strategy : Strategy} {item : Item} {p : Progress}

/-- A turn changes nothing of a file but the standing of its work. -/
theorem exists_turn_eq (strategy : Strategy) (item : Item) (p : Progress) :
    ∃ standing, (item.turn strategy p).1 = item.withStanding standing := by
  unfold turn
  split
  · split
    · exact ⟨_, rfl⟩
    · exact ⟨_, rfl⟩
  · split
    · exact ⟨_, rfl⟩
    · exact ⟨_, rfl⟩
  · exact ⟨_, rfl⟩
  · exact ⟨item.standing, rfl⟩

/-- Each turn brings the work nearer to its end. -/
theorem left_turn_le (strategy : Strategy) (item : Item) (p : Progress) :
    (item.turn strategy p).1.left ≤ item.left - 1 := by
  obtain ⟨path, work, standing⟩ := item
  cases standing with
  | waiting =>
    cases hstopped : p.stopped with
    | true => simp [turn, hstopped, withStanding, left]
    | false => simp [turn, hstopped, withStanding, left]
  | working taken rest =>
    cases rest with
    | nil => simp [turn, withStanding, left]
    | cons step rest =>
      cases htake : p.run.take step with
      | ok run => simp [turn, htake, withStanding, left]
      | error c => simp [turn, htake, withStanding, left]
  | finished report => simp [turn, left]

/-- A file for which no turns are left has its report. -/
theorem report?_isSome_of_left (h : item.left = 0) : item.report?.isSome = true := by
  obtain ⟨path, work, standing⟩ := item
  cases standing with
  | waiting => exact absurd h (Nat.succ_ne_zero _)
  | working taken rest => exact absurd h (Nat.succ_ne_zero _)
  | finished report => rfl

/-- Turns change nothing about a file with a report. -/
theorem turns_finished (n : Nat) (path : Text) (work : Plan Text)
    (report : Except Failure FileReport) (p : Progress) :
    turns strategy n ⟨path, work, .finished report⟩ p = (⟨path, work, .finished report⟩, p) := by
  induction n with
  | zero => rfl
  | succ n ih => exact ih

/-- The steps that are left are taken and the end is told, as for a file whose work has just these
steps. -/
theorem turns_working (path : Text) (work : Plan Text) (taken rest : List Step) (run : Run) :
    turns strategy (rest.length + 1) ⟨path, work, .working taken rest⟩ ⟨run, false⟩
      = (⟨path, work, .finished (step strategy ⟨rest, work.outcome⟩ path ⟨run, false⟩).1⟩,
        (step strategy ⟨rest, work.outcome⟩ path ⟨run, false⟩).2) := by
  induction rest generalizing taken run with
  | nil =>
    simp only [List.length_nil, turns, turn, withStanding, Bool.false_or]
  | cons first rest ih =>
    cases htake : run.take first with
    | ok run' =>
      have hstep : step strategy ⟨first :: rest, work.outcome⟩ path ⟨run, false⟩
          = step strategy ⟨rest, work.outcome⟩ path ⟨run', false⟩ := by
        simp only [step, Plan.run, Run.takeAll, htake, Bool.false_eq_true, if_false]
      rw [hstep, ← ih (taken ++ [first]) run', List.length_cons, turns]
      simp only [turn, htake, withStanding]
    | error c =>
      have hstep : step strategy ⟨first :: rest, work.outcome⟩ path ⟨run, false⟩
          = (.error (.conflict c), ⟨run, true⟩) := by
        simp [step, Plan.run, Run.takeAll, htake]
      rw [hstep, List.length_cons, turns]
      simp only [turn, htake, withStanding]
      exact turns_finished _ path work _ _

/-- A file that is worked on alone comes to the end that `Batch.step` gives it. -/
theorem turns_eq_step (strategy : Strategy) (path : Text) (work : Plan Text) (p : Progress) :
    turns strategy (work.steps.length + 2) ⟨path, work, .waiting⟩ p
      = (⟨path, work, .finished (step strategy work path p).1⟩, (step strategy work path p).2) := by
  obtain ⟨run, stopped⟩ := p
  cases stopped with
  | true => exact turns_finished _ path work _ _
  | false => exact turns_working path work [] work.steps run

end Item

/-- A batch that is worked on in turns. -/
structure State where
  /-- What is known so far. -/
  progress : Progress
  /-- The files, in their order. -/
  items : List Item

namespace State

/-- A batch of which no file has been started. -/
def start (work : Text → Text → Plan Text) (files : List (Text × Text)) (p : Progress) : State :=
  ⟨p, files.map fun file => ⟨file.1, work file.1 file.2, .waiting⟩⟩

/-- The batch after the turn of one file. -/
def advance (strategy : Strategy) (s : State) (index : Nat) : State :=
  match s.items[index]? with
  | none => s
  | some item =>
    ⟨(item.turn strategy s.progress).2, s.items.set index (item.turn strategy s.progress).1⟩

/-- The batch after the turns of a schedule. -/
def exec (strategy : Strategy) (s : State) (schedule : List Nat) : State :=
  schedule.foldl (advance strategy) s

/-- The reports on the files whose work is over, in the order of the files. -/
def reports (s : State) : List (Except Failure FileReport) := s.items.filterMap Item.report?

/-- The work on all files is over. -/
def IsOver (s : State) : Prop := ∀ item ∈ s.items, item.report?.isSome = true

/-- A schedule has enough turns for each file. -/
def IsFair (s : State) (schedule : List Nat) : Prop :=
  ∀ index item, s.items[index]? = some item → item.left ≤ schedule.count index

variable {strategy : Strategy} {s : State}

/-- A turn replaces one file in its place. -/
theorem exists_advance_eq {index : Nat} {item : Item} (h : s.items[index]? = some item) :
    ∃ before after, s.items = before ++ item :: after ∧ s.advance strategy index
      = ⟨(item.turn strategy s.progress).2, before ++ (item.turn strategy s.progress).1 :: after⟩ := by
  obtain ⟨hlength, hitem⟩ := List.getElem?_eq_some_iff.mp h
  obtain ⟨before, after, hsplit, -, hset⟩ :=
    @List.exists_of_set _ index (item.turn strategy s.progress).1 s.items hlength
  rw [hitem] at hsplit
  refine ⟨before, after, hsplit, ?_⟩
  simp only [advance, h, hset]

/-- What is done on which files never changes. -/
theorem map_exec (strategy : Strategy) (s : State) (schedule : List Nat) :
    (s.exec strategy schedule).items.map (fun item => (item.path, item.work))
      = s.items.map fun item => (item.path, item.work) := by
  induction schedule generalizing s with
  | nil => rfl
  | cons index schedule ih =>
    have hadvance : (s.advance strategy index).items.map (fun item => (item.path, item.work))
        = s.items.map fun item => (item.path, item.work) := by
      cases hitem : s.items[index]? with
      | none => simp only [advance, hitem]
      | some item =>
        obtain ⟨before, after, hsplit, heq⟩ := @exists_advance_eq strategy s index item hitem
        obtain ⟨standing, hturn⟩ := item.exists_turn_eq strategy s.progress
        rw [heq, hsplit, hturn]
        simp only [List.map_append, List.map_cons, Item.withStanding]
    exact (ih (s.advance strategy index)).trans hadvance

/-- Every turn given to a file brings it nearer to its end. -/
theorem exists_left_le (strategy : Strategy) (schedule : List Nat) {s : State} {index : Nat}
    {item : Item} (h : s.items[index]? = some item) :
    ∃ after, (s.exec strategy schedule).items[index]? = some after
      ∧ after.left ≤ item.left - schedule.count index := by
  induction schedule generalizing s item with
  | nil => exact ⟨item, h, Nat.le_refl _⟩
  | cons turn schedule ih =>
    by_cases heq : turn = index
    · have hset : (s.advance strategy turn).items[index]?
          = some (item.turn strategy s.progress).1 := by
        have hlength := (List.getElem?_eq_some_iff.mp h).1
        simp only [advance, heq, h, List.getElem?_set_self hlength]
      obtain ⟨after, hafter, hleft⟩ := ih hset
      have hturn := item.left_turn_le strategy s.progress
      refine ⟨after, hafter, ?_⟩
      rw [heq, List.count_cons_self]
      omega
    · have hset : (s.advance strategy turn).items[index]? = some item := by
        cases hother : s.items[turn]? with
        | none => simp only [advance, hother, h]
        | some other => simp only [advance, hother, List.getElem?_set_ne heq, h]
      rw [List.count_cons_of_ne heq]
      exact ih hset

/-- A batch is over after a schedule with enough turns for each file. -/
theorem isOver_of_isFair (strategy : Strategy) {schedule : List Nat} (h : s.IsFair schedule) :
    (s.exec strategy schedule).IsOver := by
  intro after hafter
  obtain ⟨index, hindex⟩ := List.mem_iff_getElem?.mp hafter
  have hlabels := congrArg List.length (map_exec strategy s schedule)
  rw [List.length_map, List.length_map] at hlabels
  have hlength : index < s.items.length := by
    have hbound := (List.getElem?_eq_some_iff.mp hindex).1
    omega
  have hitem : s.items[index]? = some s.items[index] := List.getElem?_eq_getElem hlength
  obtain ⟨same, hsame, hleft⟩ := exists_left_le strategy schedule hitem
  have hfair := h index _ hitem
  rw [hindex] at hsame
  cases hsame
  exact Item.report?_isSome_of_left (by omega)

/-- It is enough for each file to have a turn for every step of the batch and two more. -/
theorem isFair_start {work : Text → Text → Plan Text} {files : List (Text × Text)} {p : Progress}
    {schedule : List Nat}
    (h : ∀ index < files.length,
      (files.flatMap fun file => (work file.1 file.2).steps).length + 2 ≤ schedule.count index) :
    (start work files p).IsFair schedule := by
  intro index item hitem
  obtain ⟨file, hfile, rfl⟩ := List.mem_map.mp (List.mem_of_getElem? hitem)
  have hindex := (List.getElem?_eq_some_iff.mp hitem).1
  have hcount := h index (by rwa [start, List.length_map] at hindex)
  have hleft : Item.left ⟨file.1, work file.1 file.2, .waiting⟩
      = (work file.1 file.2).steps.length + 2 := rfl
  obtain ⟨before, after, rfl⟩ := List.append_of_mem hfile
  rw [List.flatMap_append, List.flatMap_cons, List.length_append, List.length_append] at hcount
  omega

/-- All turns of the files from some place on, one file after the other. -/
def turnsFrom (index : Nat) : List Item → List Nat
  | [] => []
  | item :: items => List.replicate item.left index ++ turnsFrom (index + 1) items

/-- The schedule that works on one file after the other. -/
def inOrder (s : State) : List Nat := turnsFrom 0 s.items

/-- Turns that are all given to one file. -/
theorem exec_replicate (n : Nat) (before after : List Item) (item : Item) (p : Progress) :
    exec strategy ⟨p, before ++ item :: after⟩ (List.replicate n before.length)
      = ⟨(item.turns strategy n p).2, before ++ (item.turns strategy n p).1 :: after⟩ := by
  induction n generalizing item p with
  | zero => rfl
  | succ n ih =>
    have hadvance : advance strategy ⟨p, before ++ item :: after⟩ before.length
        = ⟨(item.turn strategy p).2, before ++ (item.turn strategy p).1 :: after⟩ := by
      simp [advance]
    rw [List.replicate_succ, exec, List.foldl_cons, hadvance]
    exact ih _ _

/-- Turns that follow each other can be taken in two parts. -/
theorem exec_append (strategy : Strategy) (s : State) (first second : List Nat) :
    s.exec strategy (first ++ second) = (s.exec strategy first).exec strategy second :=
  List.foldl_append

/-- From some place on, the files are worked on as `Batch.steps` says. -/
theorem exec_turnsFrom (work : Text → Text → Plan Text) (files : List (Text × Text))
    (before : List Item) (p : Progress) :
    let items := (start work files p).items
    let after := exec strategy ⟨p, before ++ items⟩ (turnsFrom before.length items)
    after.progress.run = (steps strategy work files p).2
      ∧ after.items.map Item.report?
        = before.map Item.report? ++ (steps strategy work files p).1.map some := by
  induction files generalizing before p with
  | nil => simp [start, turnsFrom, exec, steps]
  | cons file files ih =>
    obtain ⟨path, contents⟩ := file
    let item : Item := ⟨path, work path contents, .waiting⟩
    let report := (step strategy (work path contents) path p).1
    let p' := (step strategy (work path contents) path p).2
    let ended : Item := ⟨path, work path contents, .finished report⟩
    have hfirst : exec strategy ⟨p, before ++ item :: (start work files p').items⟩
        (List.replicate item.left before.length)
          = ⟨p', (before ++ [ended]) ++ (start work files p').items⟩ := by
      have hturns : item.turns strategy item.left p = (ended, p') :=
        Item.turns_eq_step strategy path (work path contents) p
      rw [exec_replicate, hturns, List.append_assoc]
      rfl
    have hrest := ih (before ++ [ended]) p'
    dsimp only at hrest
    rw [List.length_append, List.length_singleton, ← hfirst, ← exec_append] at hrest
    refine ⟨hrest.1, hrest.2.trans ?_⟩
    rw [List.map_append, List.append_assoc]
    rfl

/-- A batch whose files are worked on one after the other goes as `Batch.steps` says. -/
theorem exec_inOrder (strategy : Strategy) (work : Text → Text → Plan Text)
    (files : List (Text × Text)) (p : Progress) :
    let after := (start work files p).exec strategy (start work files p).inOrder
    after.IsOver ∧ after.reports = (steps strategy work files p).1
      ∧ after.progress.run = (steps strategy work files p).2 := by
  intro after
  obtain ⟨hrun, hreports⟩ := @exec_turnsFrom strategy work files [] p
  have hall : after.items.map Item.report? = (steps strategy work files p).1.map some := hreports
  refine ⟨?_, ?_, hrun⟩
  · intro item hitem
    have hmem : item.report? ∈ (steps strategy work files p).1.map some :=
      hall ▸ List.mem_map_of_mem hitem
    obtain ⟨report, -, heq⟩ := List.mem_map.mp hmem
    rw [← heq]
    rfl
  · calc after.reports = (after.items.map Item.report?).filterMap id := by
          rw [List.filterMap_map]
          rfl
      _ = ((steps strategy work files p).1.map some).filterMap id := by rw [hall]
      _ = (steps strategy work files p).1 := by simp

end State

/-- A whole batch is what one file after the other leads to, after an entry in the journal. -/
theorem exists_run_eq (j : Job) (files : List (Text × Text)) {workers : Int} (h : 1 ≤ workers)
    (strategy : Strategy) (r : Run) :
    ∃ journal schedule,
      let after := (State.start j.file files ⟨⟨r.registry, journal⟩, false⟩).exec strategy schedule
      after.IsOver ∧ run j files workers strategy r = (collect after.reports, after.progress.run) := by
  have hworkers : ¬workers < 1 := by omega
  let given := (j.given.map Value.text).getD .null
  let entry : Entry :=
    ⟨.info, .batch, "Scoping " ++ toString files.length ++ " files with prefix "
      ++ String.ofList given.display ++ " (" ++ toString workers ++ " workers)"⟩
  let s := State.start j.file files ⟨r.write entry, false⟩
  obtain ⟨hover, hreports, hrun⟩ := State.exec_inOrder strategy j.file files ⟨r.write entry, false⟩
  refine ⟨r.journal.write entry, s.inOrder, hover, ?_⟩
  rw [run, if_neg hworkers]
  exact Prod.ext (congrArg collect hreports.symm) hrun.symm

end PhpPrefixer.Batch
