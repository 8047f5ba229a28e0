import PhpPrefixer.ConfigError
import PhpPrefixer.Edit
import PhpPrefixer.Prefix
import PhpPrefixer.Registry
import PhpPrefixer.SyntaxError
import PhpPrefixer.WhitelistFields

/-!
# Plans

What happens to a file depends on its text and on the rules, but not on the registry, except that a
conflict stops the work. So the work on a file is a plan: the steps it takes that others can see, in
order, and how it ends. A plan is carried out against the registry and the journal of a run by
`Plan.run`; several plans can be carried out on one registry in any interleaving of their steps.
-/

namespace PhpPrefixer

/-- A construct that cannot be handled. -/
structure Unsupported where
  /-- The file. -/
  path : Text
  /-- The line, counted from one. -/
  line : Nat
  /-- What is wrong with it. -/
  reason : String
  deriving DecidableEq, Repr

/-- The wording of an unsupported construct. -/
def Unsupported.message (u : Unsupported) : String :=
  "Unsupported construct in " ++ String.ofList u.path ++ " on line " ++ toString u.line ++ ": "
    ++ u.reason

/-- What went wrong in a patcher. -/
inductive PatchFault where
  /-- It failed by itself. -/
  | raised (kind : String) (message : Text)
  /-- It gave something that is no text. -/
  | notText (typeName : String)
  deriving DecidableEq, Repr

/-- A patcher that failed. -/
structure PatchError where
  /-- The name of the patcher. -/
  patcher : Text
  /-- The file. -/
  path : Text
  /-- What went wrong. -/
  fault : PatchFault
  deriving DecidableEq, Repr

/-- The wording of a patcher's failure. -/
def PatchError.message (e : PatchError) : String :=
  let fault :=
    match e.fault with
    | .raised kind message => kind ++ ": " ++ String.ofList message
    | .notText typeName => "expected str, got " ++ typeName
  "Patcher " ++ String.ofList e.patcher ++ " failed on " ++ String.ofList e.path ++ ": " ++ fault

/-- Why some work fails. -/
inductive Failure where
  /-- A file cannot be parsed. -/
  | unparsable (e : SyntaxError)
  /-- A file holds something that cannot be handled. -/
  | unsupported (u : Unsupported)
  /-- A patcher failed. -/
  | patch (e : PatchError)
  /-- A symbol was renamed differently before. -/
  | conflict (c : Conflict)
  /-- The prefix is refused. -/
  | badPrefix (e : PrefixError)
  /-- The exclusion rules are refused. -/
  | badWhitelist (e : WhitelistError)
  /-- The configuration is refused. -/
  | badConfig (e : ConfigError)
  /-- The number of workers is not positive. -/
  | badWorkers
  /-- Two edits overlap. -/
  | overlap (o : Overlap)
  /-- A span cuts a character. -/
  | undecodable
  /-- A namespace declaration has no keyword. -/
  | missingKeyword

/-- The wording of a failure; where it is only told by its kind, a short description. -/
def Failure.message : Failure → String
  | unparsable e => e.message
  | unsupported u => u.message
  | patch e => e.message
  | conflict c => c.message
  | badPrefix e => e.message
  | badWhitelist e => e.message
  | badConfig e => e.message
  | badWorkers => "max_workers must be a positive integer"
  | overlap o => o.message
  | undecodable => "a span cuts a character"
  | missingKeyword => "a namespace declaration has no keyword"

/-- Whether a failure concerns one file only. -/
def Failure.ofFile : Failure → Bool
  | unparsable _ => true
  | unsupported _ => true
  | patch _ => true
  | _ => false

/-- A step that others can see. -/
inductive Step where
  /-- Something is told. -/
  | note (e : Entry)
  /-- A symbol is renamed. -/
  | record (r : Rename)
  /-- From here on, the journal keeps what reaches this level. -/
  | threshold (level : Level)

/-- What is common to the work of a run. -/
structure Run where
  /-- The renames so far. -/
  registry : Registry
  /-- What was told so far. -/
  journal : Journal

namespace Run

/-- The run after an entry. -/
def write (r : Run) (e : Entry) : Run := { r with journal := r.journal.write e }

/-- The run after a rename, or the conflict that forbids it. -/
def record (r : Run) (rename : Rename) : Except Conflict Run :=
  match r.registry.record rename with
  | .error c => .error c
  | .ok g =>
    let r' := { r with registry := g }
    .ok (if r.registry.isNew rename then r'.write rename.bare.entry else r')

/-- The run after a step. -/
def take (r : Run) : Step → Except Conflict Run
  | .note e => .ok (r.write e)
  | .record rename => r.record rename
  | .threshold level => .ok { r with journal := { r.journal with threshold := level } }

/-- The run after some steps, and the conflict that stopped them. -/
def takeAll (r : Run) : List Step → Run × Option Conflict
  | [] => (r, none)
  | step :: steps =>
    match r.take step with
    | .ok r' => r'.takeAll steps
    | .error c => (r, some c)

/-- Taking no steps changes nothing. -/
@[simp] theorem takeAll_nil (r : Run) : r.takeAll [] = (r, none) := rfl

/-- Steps one after the other: the later ones are taken unless an earlier one was stopped. -/
theorem takeAll_append (r : Run) (steps more : List Step) :
    r.takeAll (steps ++ more) =
      match r.takeAll steps with
      | (r', none) => r'.takeAll more
      | (r', some c) => (r', some c) := by
  induction steps generalizing r with
  | nil => rfl
  | cons step steps ih =>
    simp only [List.cons_append, takeAll]
    cases r.take step with
    | ok r' => exact ih r'
    | error c => rfl

/-- A note changes no rename. -/
@[simp] theorem write_registry (r : Run) (e : Entry) : (r.write e).registry = r.registry := rfl

end Run

/-- Some work: its visible steps and its end. -/
structure Plan (α : Type) where
  /-- The steps, in order. -/
  steps : List Step
  /-- The result, or why there is none. -/
  outcome : Except Failure α

namespace Plan

variable {α β : Type}

/-- The work that gives a result at once. -/
protected def pure (a : α) : Plan α := ⟨[], .ok a⟩

/-- The work that goes on with the result of some work. -/
protected def bind (p : Plan α) (next : α → Plan β) : Plan β :=
  match p.outcome with
  | .error f => ⟨p.steps, .error f⟩
  | .ok a => ⟨p.steps ++ (next a).steps, (next a).outcome⟩

instance : Monad Plan where
  pure := Plan.pure
  bind := Plan.bind

/-- Telling something. -/
def note (level : Level) (channel : Channel) (message : String) : Plan Unit :=
  ⟨[.note ⟨level, channel, message⟩], .ok ()⟩

/-- Writing an entry. -/
def write (e : Entry) : Plan Unit := ⟨[.note e], .ok ()⟩

/-- Renaming a symbol. -/
def record (r : Rename) : Plan Unit := ⟨[.record r], .ok ()⟩

/-- Setting the level from which on the journal keeps entries. -/
def listen (level : Level) : Plan Unit := ⟨[.threshold level], .ok ()⟩

/-- Failing. -/
def fail (f : Failure) : Plan α := ⟨[], .error f⟩

/-- Going on with a result that may not be there. -/
def ofExcept (e : Except Failure α) : Plan α := ⟨[], e⟩

/-- Carrying a plan out: its result, or why there is none, and the run after it. -/
def run (p : Plan α) (r : Run) : Except Failure α × Run :=
  match r.takeAll p.steps with
  | (r', some c) => (.error (.conflict c), r')
  | (r', none) => (p.outcome, r')

/-- Giving a result takes no steps. -/
theorem pure_eq (a : α) : (pure a : Plan α) = ⟨[], .ok a⟩ := rfl

/-- A plan goes on with the result of its first part. -/
theorem bind_of_ok {p : Plan α} {next : α → Plan β} {a : α} (h : p.outcome = .ok a) :
    p >>= next = ⟨p.steps ++ (next a).steps, (next a).outcome⟩ := by
  simp [bind, Plan.bind, h]

/-- A plan whose first part fails goes no further. -/
theorem bind_of_error {p : Plan α} {next : α → Plan β} {f : Failure}
    (h : p.outcome = .error f) : p >>= next = ⟨p.steps, .error f⟩ := by
  simp [bind, Plan.bind, h]

instance : LawfulMonad Plan := LawfulMonad.mk' Plan
  (fun p => by
    obtain ⟨steps, outcome⟩ := p
    cases outcome with
    | error f => rfl
    | ok a => exact congrArg (Plan.mk · (.ok a)) (List.append_nil steps))
  (fun a next => rfl)
  (fun p next last => by
    obtain ⟨steps, outcome⟩ := p
    cases outcome with
    | error f => rfl
    | ok a =>
      simp only [bind, Plan.bind]
      cases (next a).outcome with
      | error f => rfl
      | ok b => exact congrArg (Plan.mk · _) (List.append_assoc ..))

/-- Carrying out work that goes on: the rest is carried out unless the first part failed or was
stopped. -/
theorem run_bind (p : Plan α) (next : α → Plan β) (r : Run) :
    (p >>= next).run r =
      match p.run r with
      | (.ok a, r') => (next a).run r'
      | (.error f, r') => (.error f, r') := by
  obtain ⟨steps, outcome⟩ := p
  cases outcome with
  | error f =>
    rw [bind_of_error rfl]
    simp only [run]
    cases r.takeAll steps with
    | mk r' stopped => cases stopped <;> rfl
  | ok a =>
    rw [bind_of_ok rfl]
    simp only [run, Run.takeAll_append]
    cases r.takeAll steps with
    | mk r' stopped => cases stopped <;> rfl

end Plan

end PhpPrefixer
