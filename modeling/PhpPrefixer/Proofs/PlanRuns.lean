import PhpPrefixer.Prefixer

/-!
# Plans carried out

A plan records its renames one by one while it is carried out, and nothing takes them back. So the registry
after a plan is the one before it with the renames of its steps recorded, whether the plan ended well or not
(`Plan.registry_run`), and a plan whose renames are all recorded comes to its own end
(`Plan.run_of_recorded`).
-/

namespace PhpPrefixer

/-- What is known of a result is known because there is one. -/
theorem exists_eq_ok_of_toOption {ε α β : Type} {x : Except ε α} {f : α → β} {b : β}
    (h : x.toOption.map f = some b) : ∃ a, x = .ok a ∧ f a = b := by
  cases x with
  | error e => cases h
  | ok a => exact ⟨a, rfl, Option.some_inj.mp h⟩

/-- A result that is known is the result. -/
theorem eq_ok_of_toOption {ε α : Type} {x : Except ε α} {a : α} (h : x.toOption = some a) : x = .ok a := by
  cases x with
  | error e => cases h
  | ok b => rw [Option.some_inj.mp h]

/-- The rename that a step records. -/
def Step.rename? : Step → Option Rename
  | .record r => some r
  | _ => none

/-- The renames among the steps of some work, in order. -/
def Plan.renames {α : Type} (p : Plan α) : List Rename := p.steps.filterMap Step.rename?

/-- Some steps lead to the registry with their renames recorded, and are stopped by the same conflict. -/
theorem Run.takeAll_recordAll (run : Run) (steps : List Step) :
    ((run.takeAll steps).1.registry, (run.takeAll steps).2)
      = run.registry.recordAll (steps.filterMap Step.rename?) := by
  induction steps generalizing run with
  | nil => rfl
  | cons step steps ih =>
    cases step with
    | note e => exact ih (run.write e)
    | threshold level => exact ih _
    | record r =>
      have hrenames : (Step.record r :: steps).filterMap Step.rename?
          = r :: steps.filterMap Step.rename? := rfl
      rw [hrenames, takeAll, Registry.recordAll, take, record]
      cases run.registry.record r with
      | error c => rfl
      | ok g =>
        dsimp only
        split
        · exact ih _
        · exact ih _

namespace Plan

variable {α : Type}

/-- Work leaves the registry with its renames recorded, however it ends. -/
theorem registry_run (p : Plan α) (run : Run) :
    (p.run run).2.registry = (run.registry.recordAll p.renames).1 := by
  rw [renames, ← Run.takeAll_recordAll, Plan.run]
  split
  · next h => rw [h]
  · next h => rw [h]

/-- Work whose renames are all recorded comes to its own end. -/
theorem run_of_recorded {p : Plan α} {run : Run} {g : Registry}
    (h : run.registry.recordAll p.renames = (g, none)) :
    ∃ run', p.run run = (p.outcome, run') ∧ run'.registry = g := by
  rw [renames, ← Run.takeAll_recordAll] at h
  obtain ⟨hregistry, hstopped⟩ := Prod.mk.inj h
  refine ⟨_, ?_, hregistry⟩
  rw [Plan.run]
  split
  · next htake =>
    rw [htake] at hstopped
    cases hstopped
  · next htake => rw [htake]

/-- Work that goes on with nothing but a change of its result. -/
theorem run_return {β : Type} (p : Plan α) (f : α → β) (r : Run) :
    (do let a ← p; return f a : Plan β).run r = ((p.run r).1.map f, (p.run r).2) := by
  rw [run_bind]
  cases p.run r with
  | mk ending run' => cases ending <;> rfl

/-- Work that ends well is made of parts that end well, and takes the steps of both. -/
theorem exists_of_bind {β : Type} {p : Plan α} {next : α → Plan β} {b : β}
    (h : (p >>= next).outcome = .ok b) :
    ∃ a, p.outcome = .ok a ∧ (next a).outcome = .ok b
      ∧ (p >>= next).steps = p.steps ++ (next a).steps := by
  cases hout : p.outcome with
  | error f =>
    rw [bind_of_error hout] at h
    cases h
  | ok a =>
    rw [bind_of_ok hout] at h ⊢
    exact ⟨a, rfl, h, rfl⟩

/-- Some plans, one after the other on one run: how each of them ends, and the run after them. -/
def runAll : List (Plan α) → Run → List (Except Failure α) × Run
  | [], r => ([], r)
  | p :: ps, r => ((p.run r).1 :: (runAll ps (p.run r).2).1, (runAll ps (p.run r).2).2)

end Plan

/-- A file to be moved, with all that decides about it but the prefix. -/
structure Call where
  /-- What moves the file. -/
  prefixer : Prefixer
  /-- The exclusion rules. -/
  whitelist : Whitelist
  /-- The path of the file. -/
  path : Text
  /-- The contents of the file. -/
  contents : Text

/-- The work on a file under a prefix. -/
def Call.plan (root : Text) (call : Call) : Plan Text :=
  call.prefixer.treat call.whitelist call.path (some root) call.contents

end PhpPrefixer
