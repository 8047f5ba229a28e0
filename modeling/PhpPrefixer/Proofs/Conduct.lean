import PhpPrefixer.Prefixing.Arguments

/-!
# What work may do

A conduct says which steps some work may take and in which ways it may fail. A plan keeps to a
conduct when all its steps do, whether it ends well or not; work on a file keeps to it from every
state with a property, and leads to states with another one. The rules here follow the way work is
put together, up to a whole walk: what every visitor keeps at every node, the walk keeps.
-/

namespace PhpPrefixer

variable {α β : Type}

/-- The steps work may take and the ways it may fail. -/
structure Conduct where
  /-- Whether a step may be taken. -/
  step : Step → Prop
  /-- Whether work may fail in this way. -/
  failure : Failure → Prop

/-- A plan keeps to a conduct, and its result has a property if there is one. -/
structure Plan.Keeps (c : Conduct) (p : Plan α) (Q : α → Prop) : Prop where
  /-- Every step may be taken. -/
  step : ∀ step ∈ p.steps, c.step step
  /-- It fails only as it may. -/
  failure : ∀ f, p.outcome = .error f → c.failure f
  /-- Its result has the property. -/
  result : ∀ a, p.outcome = .ok a → Q a

namespace Plan.Keeps

variable {c : Conduct}

/-- A result that is given at once has what is promised of it. -/
protected theorem pure {a : α} {Q : α → Prop} (h : Q a) : Plan.Keeps c (pure a) Q where
  step := by simp [Plan.pure_eq]
  failure := by simp [Plan.pure_eq]
  result := by
    intro b hb
    cases hb
    exact h

/-- Giving up is within the conduct if the failure is. -/
protected theorem fail {f : Failure} {Q : α → Prop} (h : c.failure f) :
    Plan.Keeps c (Plan.fail f : Plan α) Q where
  step := by simp [Plan.fail]
  failure := by
    intro g hg
    cases hg
    exact h
  result := by simp [Plan.fail]

/-- A single step that is taken without fail. -/
protected theorem single {step : Step} {Q : Unit → Prop} (h : c.step step) (hQ : Q ()) :
    Plan.Keeps c (⟨[step], .ok ()⟩ : Plan Unit) Q where
  step := by simpa using h
  failure := by simp
  result := by
    intro _ _
    exact hQ

/-- A plan keeps to what its parts keep to: the second part may rely on the result of the first. -/
protected theorem bind {p : Plan α} {next : α → Plan β} {Q : α → Prop} {R : β → Prop}
    (hp : p.Keeps c Q) (hnext : ∀ a, Q a → (next a).Keeps c R) : (p >>= next).Keeps c R := by
  cases hout : p.outcome with
  | error f =>
    rw [Plan.bind_of_error hout]
    refine ⟨hp.step, ?_, by simp⟩
    intro g hg
    cases hg
    exact hp.failure f hout
  | ok a =>
    have ha := hnext a (hp.result a hout)
    rw [Plan.bind_of_ok hout]
    refine ⟨?_, ha.failure, ha.result⟩
    intro step hstep
    rcases List.mem_append.mp hstep with hfirst | hsecond
    · exact hp.step step hfirst
    · exact ha.step step hsecond

/-- A promise about the result may be weakened. -/
protected theorem mono {p : Plan α} {Q R : α → Prop} (hp : p.Keeps c Q) (hQR : ∀ a, Q a → R a) :
    p.Keeps c R :=
  ⟨hp.step, hp.failure, fun a ha => hQR a (hp.result a ha)⟩

end Plan.Keeps

/-- From every state with the first property, work on a file keeps to a conduct and leads to results
and states with the second one. -/
def PrefixingM.Spec (c : Conduct) (P : FileState → Prop) (m : PrefixingM α)
    (Q : α → FileState → Prop) : Prop :=
  ∀ s, P s → (m.run s).Keeps c fun r => Q r.1 r.2

/-- Work on a file keeps to a conduct and keeps a property of the state. -/
abbrev PrefixingM.Preserves (c : Conduct) (I : FileState → Prop) (m : PrefixingM α) : Prop :=
  PrefixingM.Spec c I m fun _ => I

namespace PrefixingM.Spec

variable {c : Conduct} {P : FileState → Prop}

/-- Giving a result at once leaves the file as it is, so the promise has to hold of it already. -/
protected theorem pure {a : α} {Q : α → FileState → Prop} (h : ∀ s, P s → Q a s) :
    Spec c P (pure a) Q := by
  intro s hs
  exact Plan.Keeps.pure (h s hs)

/-- Work is done as promised if the second part relies on no more than the first promises. -/
protected theorem bind {m : PrefixingM α} {next : α → PrefixingM β} {Q : α → FileState → Prop}
    {R : β → FileState → Prop} (hm : Spec c P m Q) (hnext : ∀ a, Spec c (Q a) (next a) R) :
    Spec c P (m >>= next) R := by
  intro s hs
  rw [StateT.run_bind]
  exact (hm s hs).bind fun r hr => hnext r.1 r.2 hr

/-- What goes on with the state knows that it has the property. -/
theorem get_bind {next : FileState → PrefixingM β} {R : β → FileState → Prop}
    (h : ∀ s, P s → Spec c P (next s) R) : Spec c P (get >>= next) R := by
  intro s hs
  exact h s hs s hs

/-- A change to the file is made as promised if it leads from what is relied on to what is promised. -/
protected theorem modify {f : FileState → FileState} {Q : Unit → FileState → Prop}
    (h : ∀ s, P s → Q () (f s)) : Spec c P (modify f : PrefixingM Unit) Q := by
  intro s hs
  exact Plan.Keeps.pure (h s hs)

/-- A plan that is carried out as part of the work leaves the file as it is. -/
protected theorem lift {p : Plan α} {Q : α → FileState → Prop}
    (h : ∀ s, P s → p.Keeps c fun a => Q a s) : Spec c P (liftM p : PrefixingM α) Q := by
  intro s hs
  have hrun : (liftM p : PrefixingM α).run s = p >>= fun a => pure (a, s) := rfl
  rw [hrun]
  exact (h s hs).bind fun a ha => Plan.Keeps.pure ha

/-- Giving up promises anything, if the failure is within the conduct. -/
protected theorem fail {f : Failure} {Q : α → FileState → Prop} (h : c.failure f) :
    Spec c P (PrefixingM.fail f : PrefixingM α) Q :=
  Spec.lift fun _ _ => Plan.Keeps.fail h

/-- A promise may be weakened, and what it relies on strengthened. -/
protected theorem mono {m : PrefixingM α} {P' : FileState → Prop} {Q Q' : α → FileState → Prop}
    (hm : Spec c P m Q) (hP : ∀ s, P' s → P s) (hQ : ∀ a s, Q a s → Q' a s) : Spec c P' m Q' := by
  intro s hs
  exact (hm s (hP s hs)).mono fun r hr => hQ r.1 r.2 hr

/-- A fact that has nothing to do with the state may be taken for granted. -/
theorem of_fact {m : PrefixingM α} {F : Prop} {Q : α → FileState → Prop}
    (h : F → Spec c P m Q) : Spec c (fun s => P s ∧ F) m Q := by
  intro s hs
  exact h hs.2 s hs.1

/-- Telling something changes nothing. -/
protected theorem note {level : Level} {channel : Channel} {message : String}
    {Q : Unit → FileState → Prop} (hstep : c.step (.note ⟨level, channel, message⟩))
    (h : ∀ s, P s → Q () s) : Spec c P (PrefixingM.note level channel message) Q :=
  Spec.lift fun s hs => Plan.Keeps.single hstep (h s hs)

/-- An edit that is queued comes after the others. -/
protected theorem queue {e : Edit} {Q : Unit → FileState → Prop}
    (h : ∀ s, P s → Q () { s with edits := s.edits ++ [e] }) : Spec c P (PrefixingM.queue e) Q :=
  Spec.modify h

end PrefixingM.Spec

namespace PrefixingM.Preserves

variable {c : Conduct} {I : FileState → Prop}

/-- Giving a result preserves anything. -/
protected theorem pure (a : α) : Preserves c I (pure a) := Spec.pure fun _ hs => hs

/-- Work that preserves what comes next relies on may come first. -/
protected theorem bind {m : PrefixingM α} {next : α → PrefixingM β} {R : β → FileState → Prop}
    (hm : Preserves c I m) (hnext : ∀ a, Spec c I (next a) R) : Spec c I (m >>= next) R :=
  Spec.bind hm hnext

end PrefixingM.Preserves

/-- Anything may be told, and a file may be given up for what it holds. -/
structure Conduct.IsLenient (c : Conduct) : Prop where
  /-- Anything may be told. -/
  note : ∀ e, c.step (.note e)
  /-- A span may cut a character. -/
  undecodable : c.failure .undecodable
  /-- A construct may be one that cannot be handled. -/
  unsupported : ∀ u, c.failure (.unsupported u)
  /-- A namespace declaration may lack its keyword. -/
  missingKeyword : c.failure .missingKeyword
  /-- A file may be one that cannot be parsed. -/
  unparsable : ∀ e, c.failure (.unparsable e)

/-- Every rename may be recorded too. -/
structure Conduct.IsOpen (c : Conduct) : Prop extends c.IsLenient where
  /-- Every rename may be recorded. -/
  record : ∀ r, c.step (.record r)

/-- Every step may be taken and every failure may occur. -/
def Conduct.any : Conduct where
  step _ := True
  failure _ := True

/-- A conduct that allows everything is open. -/
theorem Conduct.isOpen_any : Conduct.any.IsOpen where
  note := fun _ => trivial
  undecodable := trivial
  unsupported := fun _ => trivial
  missingKeyword := trivial
  unparsable := fun _ => trivial
  record := fun _ => trivial

namespace FileSetting

open PrefixingM

/-- Recording a rename, if one was decided on. -/
def recordDecided (w : FileSetting) (kind : SymbolKind) : Option (Text × Text) → PrefixingM Unit
  | some (name, target) => w.record kind name target
  | none => pure ()

variable {c : Conduct} {w : FileSetting} {P : FileState → Prop}

/-- Reading a node changes nothing, and what goes on with the text knows where it comes from. -/
theorem spec_textOf_bind (hc : c.IsLenient) {n : Node} {next : Text → PrefixingM β}
    {R : β → FileState → Prop} (h : ∀ t, w.source.text? n = some t → Spec c P (next t) R) :
    Spec c P (w.textOf n >>= next) R := by
  unfold textOf
  cases htext : w.source.text? n with
  | some t =>
    rw [pure_bind]
    exact h t htext
  | none => exact Spec.bind (Q := fun _ _ => False) (Spec.fail hc.undecodable) fun _ _ hs => hs.elim

/-- Reporting something unsupported changes nothing, whether or not it gives the file up. -/
theorem spec_reportUnsupported (hc : c.IsLenient) {line : Nat} {reason : String} :
    Preserves c P (w.reportUnsupported line reason) := by
  unfold reportUnsupported
  cases w.policy with
  | fail => exact Spec.fail (hc.unsupported _)
  | skip => exact Spec.note (hc.note _) fun _ hs => hs

/-- Reporting a dynamic call changes nothing. -/
theorem spec_reportDynamic (hc : c.IsLenient) {line : Nat} {callee : Text} :
    Preserves c P (w.reportDynamic line callee) := by
  unfold reportDynamic
  split
  · exact Spec.note (hc.note _) fun _ hs => hs
  · exact Preserves.pure _

end FileSetting

/-- The global function a call calls, as far as its text tells. -/
def Prefixing.calleeOf (w : FileSetting) (call : Node) : Option Text :=
  (call.child? "function").bind fun n => (w.source.text? n).bind (globalCallee? n)

/-- Work that gives up goes no further. -/
theorem PrefixingM.fail_bind (f : Failure) (next : α → PrefixingM β) :
    (fail f >>= next) = fail f := rfl

/-- The function a call calls is what its text tells, unless the text cannot be read. -/
theorem Prefixing.callee?_cases (w : FileSetting) (call : Node) :
    callee? w call = pure (calleeOf w call) ∨ callee? w call = PrefixingM.fail .undecodable := by
  unfold callee? calleeOf
  cases call.child? "function" with
  | none => exact .inl rfl
  | some n =>
    simp only [Option.bind_some, FileSetting.textOf]
    cases w.source.text? n with
    | none => exact .inr rfl
    | some t => exact .inl rfl

/-- Looking up the function a call calls changes nothing. -/
theorem Prefixing.spec_callee?_bind {c : Conduct} {w : FileSetting} {P : FileState → Prop}
    (hc : c.IsLenient) {call : Node} {next : Option Text → PrefixingM β}
    {R : β → FileState → Prop} (h : PrefixingM.Spec c P (next (calleeOf w call)) R) :
    PrefixingM.Spec c P (callee? w call >>= next) R := by
  obtain hread | hfail := callee?_cases w call
  · rw [hread, pure_bind]
    exact h
  · rw [hfail, PrefixingM.fail_bind]
    exact PrefixingM.Spec.fail hc.undecodable

namespace Walk

open PrefixingM

variable {c : Conduct}

/-- What every visitor keeps on entering a node, all together keep. -/
theorem spec_enterAll {visitors : List (Visitor PrefixingM)} {s : Site} {I : FileState → Prop}
    (h : ∀ v ∈ visitors, Preserves c I (v.enter s)) :
    Preserves c I (enterAll visitors s) := by
  induction visitors with
  | nil => exact Preserves.pure _
  | cons v vs ih =>
    have hv := h v List.mem_cons_self
    have hvs := ih fun u hu => h u (List.mem_cons_of_mem v hu)
    exact hv.bind fun _ => hvs.bind fun _ => Spec.pure fun _ hs => hs

/-- Some work, one after the other. -/
def inTurn : List (PrefixingM Unit) → PrefixingM Unit
  | [] => pure ()
  | m :: ms => do
    m
    inTurn ms

/-- What every piece of work preserves is preserved by all of them in turn. -/
theorem spec_inTurn {ms : List (PrefixingM Unit)} {I : FileState → Prop}
    (h : ∀ m ∈ ms, Preserves c I m) : Preserves c I (inTurn ms) := by
  induction ms with
  | nil => exact Preserves.pure _
  | cons m ms ih =>
    have hm := h m List.mem_cons_self
    have hms := ih fun k hk => h k (List.mem_cons_of_mem m hk)
    exact hm.bind fun _ => hms

/-- The visitors leave a site in turn. -/
theorem leaveAll_eq (visitors : List (Visitor PrefixingM)) (s : Site) :
    leaveAll visitors s = inTurn (visitors.map (·.leave s)) := by
  induction visitors with
  | nil => rfl
  | cons v vs ih => simp only [leaveAll, List.map_cons, inTurn, ih]

/-- The visitors begin in turn. -/
theorem beforeAll_eq (visitors : List (Visitor PrefixingM)) :
    beforeAll visitors = inTurn (visitors.map (·.before)) := by
  induction visitors with
  | nil => rfl
  | cons v vs ih => simp only [beforeAll, List.map_cons, inTurn, ih]

/-- The visitors end in turn. -/
theorem afterAll_eq (visitors : List (Visitor PrefixingM)) :
    afterAll visitors = inTurn (visitors.map (·.after)) := by
  induction visitors with
  | nil => rfl
  | cons v vs ih => simp only [afterAll, List.map_cons, inTurn, ih]

/-- The site a task is about. -/
def Task.site : Task → Site
  | enter s => s
  | leave s => s

/-- The stack after a node has been entered. -/
def pushed (skip : Bool) (s : Site) (rest : List Task) : List Task :=
  if skip then .leave s :: rest else s.below.map .enter ++ .leave s :: rest

/-- A property of the state and of what is still to be done that every task hands on to what it
leaves on the stack holds at the end of a walk, when nothing is left. -/
theorem spec_run {visitors : List (Visitor PrefixingM)} {J : List Task → FileState → Prop}
    (henter : ∀ s rest,
      Spec c (J (.enter s :: rest)) (enterAll visitors s) fun skip => J (pushed skip s rest))
    (hleave : ∀ s rest, Spec c (J (.leave s :: rest)) (leaveAll visitors s) fun _ => J rest)
    (entered : Nat) (tasks : List Task) :
    Spec c (J tasks) (run visitors entered tasks) fun _ => J [] := by
  induction hw : weight tasks using Nat.strongRecOn generalizing entered tasks with
  | ind w ih =>
    cases tasks with
    | nil =>
      rw [run]
      exact Preserves.pure _
    | cons task rest =>
      cases task with
      | leave s =>
        rw [run]
        have hless : weight rest < w := by
          rw [← hw]
          simp only [weight, Task.weight]
          omega
        exact (hleave s rest).bind fun _ => ih _ hless entered rest rfl
      | enter s =>
        rw [run]
        refine (henter s rest).bind fun skip => ?_
        have hless : weight (pushed skip s rest) < w := by
          rw [← hw]
          exact weight_entered_lt s rest skip
        exact ih _ hless (entered + 1) (pushed skip s rest) rfl

/-- What every visitor keeps at every site of a tree, a walk through the tree keeps. -/
theorem spec_through {visitors : List (Visitor PrefixingM)} {root : Node} {I : FileState → Prop}
    {V : Site → Prop} (hroot : V (.ofRoot root)) (hbelow : ∀ s, V s → ∀ t ∈ s.below, V t)
    (hbefore : ∀ v ∈ visitors, Preserves c I v.before)
    (henter : ∀ v ∈ visitors, ∀ s, V s → Preserves c I (v.enter s))
    (hleave : ∀ v ∈ visitors, ∀ s, V s → Preserves c I (v.leave s))
    (hafter : ∀ v ∈ visitors, Preserves c I v.after) :
    Preserves c I (through visitors root) := by
  have hbeforeAll : Preserves c I (beforeAll visitors) := by
    rw [beforeAll_eq]
    exact spec_inTurn (by simpa using hbefore)
  have hafterAll : Preserves c I (afterAll visitors) := by
    rw [afterAll_eq]
    exact spec_inTurn (by simpa using hafter)
  let J : List Task → FileState → Prop := fun tasks s => I s ∧ ∀ task ∈ tasks, V task.site
  have hrun : Spec c (J [.enter (.ofRoot root)]) (run visitors 0 [.enter (.ofRoot root)])
      fun _ => J [] := by
    apply spec_run
    · intro s rest st hst
      have hs : V s := hst.2 (.enter s) List.mem_cons_self
      refine (spec_enterAll (fun v hv => henter v hv s hs) st hst.1).mono fun r hr => ⟨hr, ?_⟩
      intro task htask
      unfold pushed at htask
      split at htask
      · rcases List.mem_cons.mp htask with rfl | hrest
        · exact hs
        · exact hst.2 task (List.mem_cons_of_mem _ hrest)
      · rcases List.mem_append.mp htask with hnew | hold
        · obtain ⟨t, ht, rfl⟩ := List.mem_map.mp hnew
          exact hbelow s hs t ht
        · rcases List.mem_cons.mp hold with rfl | hrest
          · exact hs
          · exact hst.2 task (List.mem_cons_of_mem _ hrest)
    · intro s rest st hst
      have hs : V s := hst.2 (.leave s) List.mem_cons_self
      have hleaveAll : Preserves c I (leaveAll visitors s) := by
        rw [leaveAll_eq]
        exact spec_inTurn (by simpa using fun v hv => hleave v hv s hs)
      refine (hleaveAll st hst.1).mono fun r hr => ⟨hr, ?_⟩
      intro task htask
      exact hst.2 task (List.mem_cons_of_mem _ htask)
  refine hbeforeAll.bind fun _ => ?_
  have hfirst : ∀ task ∈ [Task.enter (.ofRoot root)], V task.site := by
    intro task htask
    cases List.mem_singleton.mp htask
    exact hroot
  have hstart : Preserves c I (run visitors 0 [.enter (.ofRoot root)]) :=
    hrun.mono (fun s hs => ⟨hs, hfirst⟩) fun _ _ hr => hr.1
  exact hstart.bind fun _ => hafterAll.bind fun _ => Spec.pure fun _ hs => hs

end Walk

end PhpPrefixer
