import PhpPrefixer.Proofs.Agreement
import PhpPrefixer.Proofs.HandFiles
import PhpPrefixer.Proofs.PlanRuns

/-!
# Interleaved work on one registry

Several plans are carried out on one run. A schedule says whose turn it is, and each turn takes one
step; every interleaving of the steps is some schedule. A plan that is stopped by a conflict takes no
further step. Carried out alone, a plan ends as `Plan.run` says.

Work under one prefix never meets a conflict, whatever files it is on and whichever rules apply to
each of them: `Call.ne_conflict`.
-/

namespace PhpPrefixer

variable {α : Type}

namespace Plan

/-- One step of a plan: what is left of it, and the run after the step. -/
def advance (p : Plan α) (r : Run) : Plan α × Run :=
  match p.steps with
  | [] => (p, r)
  | step :: rest =>
    match r.take step with
    | .ok r' => (⟨rest, p.outcome⟩, r')
    | .error c => (⟨[], .error (.conflict c)⟩, r)

/-- Some steps of a plan that is carried out alone. -/
def advanceBy : Nat → Plan α → Run → Plan α × Run
  | 0, p, r => (p, r)
  | n + 1, p, r => advanceBy n (p.advance r).1 (p.advance r).2

/-- A plan that has come to its end stays there. -/
theorem advanceBy_of_done (n : Nat) (outcome : Except Failure α) (r : Run) :
    advanceBy n ⟨[], outcome⟩ r = (⟨[], outcome⟩, r) := by
  induction n with
  | zero => rfl
  | succ n ih => exact ih

/-- Step by step, a plan that is carried out alone comes to its end. -/
theorem advanceBy_length (p : Plan α) (r : Run) :
    advanceBy p.steps.length p r = (⟨[], (p.run r).1⟩, (p.run r).2) := by
  obtain ⟨steps, outcome⟩ := p
  induction steps generalizing r with
  | nil => rfl
  | cons step rest ih =>
    simp only [List.length_cons, advanceBy, advance, run, Run.takeAll]
    cases r.take step with
    | ok r' => exact ih r'
    | error c => exact advanceBy_of_done rest.length _ r

variable {root : Text} {p : Plan α} {r : Run} {Q : α → Prop}

/-- A step under the prefix leaves work under the prefix, on a registry under the prefix. -/
theorem keeps_advance (hroot : Name.IsRoot root) (hp : p.Keeps (.under root) Q)
    (hr : r.registry.Follows root) :
    (p.advance r).1.Keeps (.under root) Q ∧ (p.advance r).2.registry.Follows root := by
  obtain ⟨steps, outcome⟩ := p
  cases steps with
  | nil => exact ⟨hp, hr⟩
  | cons step rest =>
    obtain ⟨hstep, hrest⟩ := List.forall_mem_cons.mp hp.step
    obtain ⟨r', htake, hfollows, -⟩ := Run.take_of_follows hroot hr hstep
    simp only [advance, htake]
    exact ⟨⟨hrest, hp.failure, hp.result⟩, hfollows⟩

/-- Some steps of a plan under a prefix leave one, and a registry, under the prefix. -/
theorem keeps_advanceBy (hroot : Name.IsRoot root) (n : Nat) (hp : p.Keeps (.under root) Q)
    (hr : r.registry.Follows root) :
    (advanceBy n p r).1.Keeps (.under root) Q ∧ (advanceBy n p r).2.registry.Follows root := by
  induction n generalizing p r with
  | zero => exact ⟨hp, hr⟩
  | succ n ih =>
    obtain ⟨hleft, hafter⟩ := keeps_advance hroot hp hr
    exact ih hleft hafter

/-- None of some plans under a prefix is stopped by a conflict when they are carried out in turn. -/
theorem ne_conflict_of_mem_runAll (hroot : Name.IsRoot root) {ps : List (Plan α)}
    (hps : ∀ p ∈ ps, p.Keeps (.under root) Q) (hr : r.registry.Follows root)
    {result : Except Failure α} (h : result ∈ (runAll ps r).1) (x : Conflict) :
    result ≠ .error (.conflict x) := by
  induction ps generalizing r with
  | nil => exact absurd h List.not_mem_nil
  | cons p ps ih =>
    obtain ⟨hp, hrest⟩ := List.forall_mem_cons.mp hps
    have hend := keeps_advanceBy hroot p.steps.length hp hr
    rw [advanceBy_length] at hend
    rcases List.mem_cons.mp h with rfl | hlater
    · intro hconflict
      exact hend.1.failure _ hconflict x rfl
    · exact ih hrest hend.2 hlater

end Plan

/-- Plans that are carried out on one run. -/
structure Pool where
  /-- The run. -/
  run : Run
  /-- What is left of each plan. -/
  plans : List (Plan Text)

namespace Pool

/-- The pool after one plan has taken a step. -/
def advance (pool : Pool) (turn : Nat) : Pool :=
  match pool.plans[turn]? with
  | none => pool
  | some p => ⟨(p.advance pool.run).2, pool.plans.set turn (p.advance pool.run).1⟩

/-- The pool after the turns of a schedule. -/
def exec (pool : Pool) (schedule : List Nat) : Pool := schedule.foldl advance pool

/-- All work in the pool is under one prefix, and so is all that was recorded. -/
structure IsUnder (root : Text) (pool : Pool) : Prop where
  /-- What was recorded is under the prefix. -/
  registry : pool.run.registry.Follows root
  /-- What is left to do is under the prefix. -/
  plans : ∀ p ∈ pool.plans, p.Keeps (.under root) fun _ => True

variable {root : Text} {pool : Pool}

/-- A turn leaves all work under the prefix. -/
theorem IsUnder.advance (hroot : Name.IsRoot root) (h : pool.IsUnder root) (turn : Nat) :
    (pool.advance turn).IsUnder root := by
  unfold Pool.advance
  split
  · exact h
  · next p hp =>
    have hplan := h.plans p (List.mem_of_getElem? hp)
    obtain ⟨hleft, hregistry⟩ := Plan.keeps_advance hroot hplan h.registry
    refine ⟨hregistry, ?_⟩
    intro q hq
    rcases List.mem_or_eq_of_mem_set hq with hold | rfl
    · exact h.plans q hold
    · exact hleft

/-- Any turns leave all work under the prefix. -/
theorem IsUnder.exec (hroot : Name.IsRoot root) (h : pool.IsUnder root) (schedule : List Nat) :
    (pool.exec schedule).IsUnder root := by
  induction schedule generalizing pool with
  | nil => exact h
  | cons turn schedule ih => exact ih (h.advance hroot turn)

end Pool

namespace Call

/-- Under one prefix, and on one registry that starts empty, no call is ever stopped by a conflict:
not in any interleaving of the steps of all calls, and not when they are made one after the other. -/
theorem ne_conflict {root : Text} (hroot : Prefix.validate (some root) = .ok root)
    (calls : List Call) (hnames : ∀ call ∈ calls, call.prefixer.NamesWellFormed)
    (journal : Journal) :
    (∀ schedule, ∀ p ∈ (Pool.exec ⟨⟨.empty, journal⟩, calls.map (plan root)⟩ schedule).plans,
        ∀ x, p.outcome ≠ .error (.conflict x))
      ∧ ∀ result ∈ (Plan.runAll (calls.map (plan root)) ⟨.empty, journal⟩).1,
        ∀ x, result ≠ .error (.conflict x) := by
  have hisRoot := Name.isRoot_of_validate hroot
  have hplans : ∀ p ∈ calls.map (plan root), p.Keeps (.under root) fun _ => True := by
    intro p hp
    obtain ⟨call, hcall, rfl⟩ := List.mem_map.mp hp
    exact Prefixer.keeps_treat (hnames call hcall) hroot _ _ _
  constructor
  · intro schedule p hp x hconflict
    have hstart : Pool.IsUnder root ⟨⟨.empty, journal⟩, calls.map (plan root)⟩ :=
      ⟨Registry.follows_empty root, hplans⟩
    exact ((hstart.exec hisRoot schedule).plans p hp).failure _ hconflict x rfl
  · intro result hresult
    exact Plan.ne_conflict_of_mem_runAll hisRoot hplans (Registry.follows_empty root) hresult

end Call

/-- Two files that spell one class in different letter case record it without conflict, here with
their steps in turns and then one file after the other. -/
theorem Call.ne_conflict_letterCase :
    let calls : List Call :=
      ['A', 'a'].map fun letter => ⟨creationPrefixer, .empty, "a.php".toList, creation letter⟩
    let run : Run := ⟨.empty, .withThreshold .warning⟩
    let plans := calls.map (plan "Humbug".toList)
    Prefix.validate (some "Humbug".toList) = .ok "Humbug".toList
      ∧ (∀ call ∈ calls, call.prefixer.NamesWellFormed)
      ∧ (∀ p ∈ (Pool.exec ⟨run, plans⟩ [0, 1, 0, 1, 0, 1, 0, 1, 0, 1, 0, 1]).plans,
        ∀ x, p.outcome ≠ .error (.conflict x))
      ∧ ∀ result ∈ (Plan.runAll plans run).1, ∀ x, result ≠ .error (.conflict x) := by
  intro calls run plans
  have hroot : Prefix.validate (some "Humbug".toList) = .ok "Humbug".toList := by decide +kernel
  have hnames : ∀ call ∈ calls, call.prefixer.NamesWellFormed := by
    intro call hcall
    obtain ⟨letter, -, rfl⟩ := List.mem_map.mp hcall
    exact namesWellFormed_creationPrefixer
  have hnever := Call.ne_conflict hroot calls hnames (.withThreshold .warning)
  exact ⟨hroot, hnames, hnever.1 _, hnever.2⟩

end PhpPrefixer
