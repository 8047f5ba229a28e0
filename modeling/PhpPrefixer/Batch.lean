import PhpPrefixer.Patcher
import PhpPrefixer.Prefixer

/-!
# Batches

Many files are moved with one registry. A file that fails is reported, and the others go on or are
skipped, as the strategy says. A conflict makes the whole run inconsistent: nothing is started after
it, and the batch as a whole fails. Any other failure makes the batch fail too, but stops no file.
-/

namespace PhpPrefixer

/-- One way to move files: with a prefix, exclusion rules and patchers. -/
structure Job where
  /-- What moves files. -/
  prefixer : Prefixer
  /-- The exclusion rules. -/
  whitelist : Whitelist
  /-- The prefix as it was given. -/
  given : Option Text
  /-- What mends the texts afterwards. -/
  patchers : List Patcher

/-- The work on a file. -/
def Job.file (j : Job) (path contents : Text) : Plan Text := do
  let moved ← j.prefixer.treat j.whitelist path j.given contents
  Patcher.applyAll j.patchers path j.given moved

namespace Batch

/-- What happens to the other files after one has failed. -/
inductive Strategy where
  /-- They go on. -/
  | continue
  /-- Those not started yet are skipped. -/
  | stop
  deriving DecidableEq, Repr

/-- What became of a file. -/
inductive Fate where
  /-- It was moved. -/
  | moved (contents : Text)
  /-- It failed. -/
  | failed (message : String)
  /-- It was not started. -/
  | skipped
  deriving DecidableEq, Repr

namespace Fate

/-- Whether a file was moved. -/
def succeeded : Fate → Bool
  | moved _ => true
  | _ => false

/-- The new contents of a file. -/
def contents? : Fate → Option Text
  | moved t => some t
  | _ => none

/-- Why a file was not moved. -/
def error? : Fate → Option String
  | moved _ => none
  | failed message => some message
  | skipped => some "skipped after earlier failure"

end Fate

/-- The report on a file. -/
structure FileReport where
  /-- The path of the file. -/
  path : Text
  /-- What became of it. -/
  fate : Fate
  deriving DecidableEq, Repr

/-- The report on a batch. -/
structure Report where
  /-- The reports on the files, in the order of the files. -/
  files : List FileReport
  deriving DecidableEq, Repr

namespace Report

/-- Whether all files were moved. -/
def success (r : Report) : Bool := r.files.all fun f => f.fate.succeeded

/-- The files that were moved, with their new contents. -/
def moved (r : Report) : List (Text × Text) :=
  r.files.filterMap fun f => f.fate.contents?.map fun t => (f.path, t)

/-- The files that failed, with the reasons. -/
def failures (r : Report) : List (Text × String) :=
  r.files.filterMap fun f =>
    match f.fate with
    | .failed message => some (f.path, message)
    | _ => none

/-- The files that were not started. -/
def skipped (r : Report) : List Text :=
  r.files.filterMap fun f => if f.fate = .skipped then some f.path else none

/-- The lines about the failed files. -/
def errors (r : Report) : List String :=
  r.failures.map fun (path, message) => String.ofList path ++ ": " ++ message

end Report

/-- What is known after some files. -/
structure Progress where
  /-- The run. -/
  run : Run
  /-- Whether no further file is started. -/
  stopped : Bool

/-- The work on one file of a batch. -/
def step (strategy : Strategy) (work : Plan Text) (path : Text) (p : Progress) :
    Except Failure FileReport × Progress :=
  if p.stopped then (.ok ⟨path, .skipped⟩, p)
  else
    match work.run p.run with
    | (.ok t, run) => (.ok ⟨path, .moved t⟩, ⟨run, false⟩)
    | (.error (.conflict c), run) => (.error (.conflict c), ⟨run, true⟩)
    | (.error f, run) =>
      if f.ofFile then
        let entry : Entry :=
          ⟨.error, .batch, "Failed to scope " ++ String.ofList path ++ ": " ++ f.message⟩
        (.ok ⟨path, .failed f.message⟩, ⟨run.write entry, strategy = .stop⟩)
      else (.error f, ⟨run, false⟩)

/-- The work on some files, one after the other. -/
def steps (strategy : Strategy) (work : Text → Text → Plan Text) :
    List (Text × Text) → Progress → List (Except Failure FileReport) × Run
  | [], p => ([], p.run)
  | (path, contents) :: files, p =>
    let (report, p') := step strategy (work path contents) path p
    let (reports, run) := steps strategy work files p'
    (report :: reports, run)

/-- The report on a batch, or the first failure in the order of the files. -/
def collect (reports : List (Except Failure FileReport)) : Except Failure Report :=
  (reports.mapM id).map Report.mk

/-- The work on a batch of files with a number of workers, which changes nothing but what is told. -/
def run (j : Job) (files : List (Text × Text)) (workers : Int) (strategy : Strategy) (r : Run) :
    Except Failure Report × Run :=
  if workers < 1 then (.error .badWorkers, r)
  else
    let given := (j.given.map Value.text).getD .null
    let entry : Entry :=
      ⟨.info, .batch, "Scoping " ++ toString files.length ++ " files with prefix "
        ++ String.ofList given.display ++ " (" ++ toString workers ++ " workers)"⟩
    let (reports, r') := steps strategy j.file files ⟨r.write entry, false⟩
    (collect reports, r')

end Batch

end PhpPrefixer
