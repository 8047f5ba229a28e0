import PhpPrefixer.Proofs.Trees
import PhpPrefixer.Walk.Trace

/-!
# Walks as recursions

A walk keeps a stack of tasks. `Walk.visit` is the same walk by recursion on the tree: enter a node, visit
what is below it, leave it. A node to be entered that lies on top of the stack is visited before anything
below it on the stack is looked at, `Walk.run_enter`; so the two agree, in every monad in which the
visitors may act. This is `Walk.through_recursive`.
-/

namespace PhpPrefixer

namespace Walk

section

variable {m : Type → Type} [Monad m]

mutual

/-- Visiting a node, at its place below its parent: all visitors enter it in order, then its named
children are visited in order, unless a visitor asked for them to be skipped, and then all visitors leave
it in order. Gives the number of nodes entered. -/
def visit (visitors : List (Visitor m)) (parent : Option Node) (nth : Nat) : Node → m Nat
  | .mk type named missing span field children => do
    let node : Node := .mk type named missing span field children
    let descents ← visitors.mapM (·.enter ⟨node, parent, nth⟩)
    let below ← (if .skip ∈ descents then pure 0 else visitNamed visitors node 0 children)
    visitors.forM (·.leave ⟨node, parent, nth⟩)
    return below + 1

/-- Visiting the named ones among some children in order, the first of them at the given place. -/
def visitNamed (visitors : List (Visitor m)) (parent : Node) (nth : Nat) : List Node → m Nat
  | [] => pure 0
  | c :: cs =>
    if c.named then do
      let first ← visit visitors (some parent) nth c
      let others ← visitNamed visitors parent (nth + 1) cs
      return first + others
    else visitNamed visitors parent nth cs

end

/-- A whole walk by recursion; gives the number of nodes entered. -/
def recursively (visitors : List (Visitor m)) (root : Node) : m Nat := do
  visitors.forM (·.before)
  let entered ← visit visitors none 0 root
  visitors.forM (·.after)
  return entered

variable (visitors : List (Visitor m))

/-- A node is visited by entering it, visiting what is below it unless a visitor skips it, and leaving it.
-/
theorem visit_eq (parent : Option Node) (nth : Nat) (node : Node) :
    visit visitors parent nth node = do
      let descents ← visitors.mapM (·.enter ⟨node, parent, nth⟩)
      let below ← (if .skip ∈ descents then pure 0 else visitNamed visitors node 0 node.children)
      visitors.forM (·.leave ⟨node, parent, nth⟩)
      return below + 1 := by
  cases node
  rw [visit]
  rfl

/-- The visitors begin one after the other. -/
theorem beforeAll_eq_forM : beforeAll visitors = visitors.forM (·.before) := by
  induction visitors with
  | nil => rfl
  | cons v vs ih => rw [beforeAll, ih, List.forM]

/-- The visitors leave a site one after the other. -/
theorem leaveAll_eq_forM (s : Site) : leaveAll visitors s = visitors.forM (·.leave s) := by
  induction visitors with
  | nil => rfl
  | cons v vs ih => rw [leaveAll, ih, List.forM]

/-- The visitors end one after the other. -/
theorem afterAll_eq_forM : afterAll visitors = visitors.forM (·.after) := by
  induction visitors with
  | nil => rfl
  | cons v vs ih => rw [afterAll, ih, List.forM]

variable [LawfulMonad m]

/-- The walk stays above a node exactly when one of the visitors asked for it. -/
theorem enterAll_eq_mapM (s : Site) :
    enterAll visitors s = (fun descents => decide (.skip ∈ descents)) <$> visitors.mapM (·.enter s) := by
  induction visitors with
  | nil => simp [enterAll]
  | cons v vs ih => simp [enterAll, ih, List.mapM_cons, eq_comm]

variable {visitors}

/-- The named ones among some siblings that lie on top of a stack are visited in order, if each of them
is visited when it lies on top. -/
theorem run_among {parent : Node} {children : List Node}
    (hvisit : ∀ c ∈ children, ∀ nth entered rest,
      run visitors entered (.enter ⟨c, some parent, nth⟩ :: rest)
        = visit visitors (some parent) nth c >>= fun count => run visitors (entered + count) rest)
    (nth entered : Nat) (rest : List Task) :
    run visitors entered ((Site.among parent nth children).map Task.enter ++ rest)
      = visitNamed visitors parent nth children >>= fun count => run visitors (entered + count) rest := by
  induction children generalizing nth entered with
  | nil =>
    rw [visitNamed, pure_bind]
    rfl
  | cons c cs ih =>
    obtain ⟨hc, hcs⟩ := List.forall_mem_cons.mp hvisit
    rw [Site.among, visitNamed]
    split
    · rw [List.map_cons, List.cons_append, hc, bind_assoc]
      refine bind_congr fun first => ?_
      rw [ih hcs, bind_assoc]
      refine bind_congr fun others => ?_
      rw [pure_bind, Nat.add_assoc]
    · exact ih hcs nth entered

/-- A node to be entered that lies on top of a stack is visited, whatever else is on the stack. -/
theorem run_enter (n : Node) (parent : Option Node) (nth entered : Nat) (rest : List Task) :
    run visitors entered (.enter ⟨n, parent, nth⟩ :: rest)
      = visit visitors parent nth n >>= fun count => run visitors (entered + count) rest := by
  -- On the tree: what is below the node is pushed on top of leaving it, and visited first.
  induction n using Node.induction generalizing parent nth entered rest with
  | step n ih =>
    rw [run, enterAll_eq_mapM, bind_map_left, visit_eq, bind_assoc]
    refine bind_congr fun descents => ?_
    by_cases hskip : .skip ∈ descents
    · rw [if_pos (decide_eq_true hskip), if_pos hskip, pure_bind, run, leaveAll_eq_forM, bind_assoc]
      simp only [pure_bind, Nat.zero_add]
    · rw [if_neg (by simpa using hskip), if_neg hskip, bind_assoc]
      have hbelow := run_among (fun c hc nth entered rest => ih c hc (some n) nth entered rest) 0
        (entered + 1) (.leave ⟨n, parent, nth⟩ :: rest)
      refine hbelow.trans (bind_congr fun count => ?_)
      have hcount : entered + 1 + count = entered + (count + 1) := by omega
      rw [run, leaveAll_eq_forM, bind_assoc, hcount]
      simp only [pure_bind]

/-- A walk with a stack is the recursive one. -/
theorem through_eq_recursively (visitors : List (Visitor m)) (root : Node) :
    through visitors root = recursively visitors root := by
  rw [through, recursively, beforeAll_eq_forM, afterAll_eq_forM]
  refine bind_congr fun _ => ?_
  rw [Site.ofRoot, run_enter, bind_assoc]
  refine bind_congr fun count => ?_
  rw [run, pure_bind, Nat.zero_add]

end

/-- A call of a hook, with the place of the visitor among the visitors. -/
inductive HookCall where
  /-- Before the walk. -/
  | before (visitor : Nat)
  /-- On entering a node. -/
  | enter (visitor : Nat) (s : Site)
  /-- On leaving a node. -/
  | leave (visitor : Nat) (s : Site)
  /-- After the walk. -/
  | after (visitor : Nat)

/-- What hooks do that change a state and may fail. The state in which one fails is kept. -/
abbrev HookM (ε σ : Type) := ExceptT ε (StateM σ)

variable {ε σ α β : Type}

/-- How hooks that are called in a state end, and the state that they leave. -/
def runFrom (hooks : HookM ε σ α) (st : σ) : Except ε α × σ := Id.run (StateT.run hooks.run st)

/-- A hook whose call is written down. -/
def noting (call : HookCall) (hook : HookM ε σ α) : HookM ε (σ × List HookCall) α :=
  ExceptT.mk fun st =>
    let (outcome, after) := runFrom hook st.1
    (outcome, (after, st.2 ++ [call]))

/-- A visitor all of whose calls are written down. -/
def notingVisitor (nth : Nat) (v : Visitor (HookM ε σ)) :
    Visitor (HookM ε (σ × List HookCall)) where
  before := noting (.before nth) v.before
  enter s := noting (.enter nth s) (v.enter s)
  leave s := noting (.leave nth s) (v.leave s)
  after := noting (.after nth) v.after

/-- Visitors all of whose calls are written down, the first of them with the given place. -/
def notingFrom (nth : Nat) : List (Visitor (HookM ε σ)) → List (Visitor (HookM ε (σ × List HookCall)))
  | [] => []
  | v :: vs => notingVisitor nth v :: notingFrom (nth + 1) vs

/-- Doing the same as other hooks, and only adding to what is written down. -/
def Follows (p : HookM ε (σ × List HookCall) α) (q : HookM ε σ α) : Prop :=
  ∀ st calls, ∃ more, runFrom p (st, calls) = ((runFrom q st).1, ((runFrom q st).2, calls ++ more))

/-- A hook that notes its call follows the hook. -/
theorem follows_noting (call : HookCall) (hook : HookM ε σ α) : Follows (noting call hook) hook :=
  fun _ _ => ⟨[call], rfl⟩

/-- Giving a result follows giving it. -/
theorem Follows.pure (a : α) : Follows (Pure.pure a : HookM ε (σ × List HookCall) α) (Pure.pure a) :=
  fun _ calls => ⟨[], by rw [List.append_nil]; rfl⟩

/-- Work goes on from the state that its first part leaves, unless this one fails. -/
theorem runFrom_bind (p : HookM ε σ α) (next : α → HookM ε σ β) (st : σ) :
    runFrom (p >>= next) st =
      match runFrom p st with
      | (.ok a, after) => runFrom (next a) after
      | (.error e, after) => (.error e, after) := by
  simp only [runFrom, ExceptT.run_bind, StateT.run_bind]
  simp only [bind, Id.run]
  cases StateT.run p.run st with
  | mk outcome after =>
    cases outcome with
    | ok a => rfl
    | error e => rfl

/-- Work follows other work if both of its parts do. -/
theorem Follows.bind {p : HookM ε (σ × List HookCall) α} {q : HookM ε σ α}
    {next : α → HookM ε (σ × List HookCall) β} {next' : α → HookM ε σ β} (h : Follows p q)
    (hnext : ∀ a, Follows (next a) (next' a)) : Follows (p >>= next) (q >>= next') := by
  intro st calls
  obtain ⟨more, hmore⟩ := h st calls
  rw [runFrom_bind, runFrom_bind, hmore]
  generalize runFrom q st = ended
  obtain ⟨outcome, after⟩ := ended
  cases outcome with
  | error e => exact ⟨more, rfl⟩
  | ok a =>
    obtain ⟨others, hothers⟩ := hnext a after (calls ++ more)
    exact ⟨more ++ others, by rw [← List.append_assoc]; exact hothers⟩

/-- Visitors whose calls are written down do in turn what the visitors do. -/
theorem follows_forM {hook : Visitor (HookM ε σ) → HookM ε σ Unit}
    {noted : Visitor (HookM ε (σ × List HookCall)) → HookM ε (σ × List HookCall) Unit}
    (h : ∀ nth v, Follows (noted (notingVisitor nth v)) (hook v)) (nth : Nat)
    (visitors : List (Visitor (HookM ε σ))) :
    Follows ((notingFrom nth visitors).forM noted) (visitors.forM hook) := by
  induction visitors generalizing nth with
  | nil => exact Follows.pure ()
  | cons v vs ih => exact (h nth v).bind fun _ => ih (nth + 1)

/-- Entering a site with calls that are noted follows entering it. -/
theorem follows_mapM (s : Site) (nth : Nat) (visitors : List (Visitor (HookM ε σ))) :
    Follows ((notingFrom nth visitors).mapM (·.enter s)) (visitors.mapM (·.enter s)) := by
  induction visitors generalizing nth with
  | nil => exact Follows.pure []
  | cons v vs ih =>
    rw [notingFrom, List.mapM_cons, List.mapM_cons]
    refine (follows_noting _ (v.enter s)).bind fun first => ?_
    exact (ih (nth + 1)).bind fun others => Follows.pure _

/-- Visiting several nodes with calls that are noted follows visiting them, if it does for each. -/
theorem follows_visitNamed {visitors : List (Visitor (HookM ε σ))} {parent : Node}
    {children : List Node}
    (hvisit : ∀ c ∈ children, ∀ nth, Follows (visit (notingFrom 0 visitors) (some parent) nth c)
      (visit visitors (some parent) nth c)) (nth : Nat) :
    Follows (visitNamed (notingFrom 0 visitors) parent nth children)
      (visitNamed visitors parent nth children) := by
  induction children generalizing nth with
  | nil =>
    rw [visitNamed, visitNamed]
    exact Follows.pure 0
  | cons c cs ih =>
    obtain ⟨hc, hcs⟩ := List.forall_mem_cons.mp hvisit
    rw [visitNamed, visitNamed]
    split
    · exact (hc nth).bind fun first => (ih hcs (nth + 1)).bind fun others => Follows.pure _
    · exact ih hcs nth

/-- Visiting a tree with calls that are noted follows visiting it. -/
theorem follows_visit (visitors : List (Visitor (HookM ε σ))) (n : Node) (parent : Option Node)
    (nth : Nat) :
    Follows (visit (notingFrom 0 visitors) parent nth n) (visit visitors parent nth n) := by
  induction n using Node.induction generalizing parent nth with
  | step n ih =>
    have hbelow := follows_visitNamed (fun c hc => ih c hc (some n)) 0
    rw [visit_eq, visit_eq]
    refine (follows_mapM _ 0 visitors).bind fun descents => Follows.bind ?_ fun below => ?_
    · split
      · exact Follows.pure 0
      · exact hbelow
    · refine (follows_forM (fun nth v => follows_noting _ _) 0 visitors).bind fun _ => ?_
      exact Follows.pure _

/-- A walk with calls that are noted follows the walk. -/
theorem follows_recursively (visitors : List (Visitor (HookM ε σ))) (root : Node) :
    Follows (recursively (notingFrom 0 visitors) root) (recursively visitors root) := by
  refine (follows_forM (fun nth v => follows_noting _ _) 0 visitors).bind fun _ => ?_
  refine (follows_visit visitors root none 0).bind fun entered => ?_
  refine (follows_forM (fun nth v => follows_noting _ _) 0 visitors).bind fun _ => ?_
  exact Follows.pure _

/-- A walk with a stack is the walk by recursion, for all visitors and all trees: the two are equal in
every monad. So if the hooks of the visitors change a state and may fail, both walks make the same calls
in the same order, and end alike: with the same number of nodes or, where a hook fails, with the same
failure, and in the same state. -/
theorem through_recursive :
    (∀ (m : Type → Type) [Monad m] [LawfulMonad m] (visitors : List (Visitor m)) (root : Node),
      through visitors root = recursively visitors root)
    ∧ ∀ (ε σ : Type) (visitors : List (Visitor (HookM ε σ))) (root : Node) (st : σ),
      ∃ outcome after calls,
        runFrom (through visitors root) st = (outcome, after)
        ∧ runFrom (through (notingFrom 0 visitors) root) (st, []) = (outcome, (after, calls))
        ∧ runFrom (recursively visitors root) st = (outcome, after)
        ∧ runFrom (recursively (notingFrom 0 visitors) root) (st, []) = (outcome, (after, calls)) := by
  refine ⟨fun m _ _ visitors root => through_eq_recursively visitors root,
    fun ε σ visitors root st => ?_⟩
  obtain ⟨calls, hcalls⟩ := follows_recursively visitors root st []
  rw [through_eq_recursively, through_eq_recursively]
  exact ⟨_, _, calls, rfl, hcalls, rfl, hcalls⟩

/-- A visitor that writes down what a watcher does, and fails on leaving a node of a type. -/
def watchingUntil (w : Watcher) (last : String) : Visitor (HookM String (List Event)) where
  before := modify (· ++ [.before w.name])
  enter s := do
    modify (· ++ [.enter w.name s.node.type])
    return if w.stops.contains s.node.type then .skip else .onward
  leave s := do
    modify (· ++ [.leave w.name s.node.type])
    if s.node.type = last then throw last
  after := modify (· ++ [.after w.name])

/-- Two visitors, of which the first keeps the walk above one node and the second fails on leaving the
next one: the first has left that node, and neither comes to the node behind it. -/
theorem through_recursive_failing :
    let leaf (type : String) : Node := .mk type true false ⟨0, 0⟩ none []
    let tree : Node := .mk "program" true false ⟨0, 0⟩ none
      [.mk "a" true false ⟨0, 0⟩ none [leaf "a1"], leaf "b", leaf "c"]
    let visitors := [watchingUntil ⟨"v", ["a"]⟩ "", watchingUntil ⟨"w", []⟩ "b"]
    let events : List Event :=
      [.before "v", .before "w", .enter "v" "program", .enter "w" "program", .enter "v" "a",
        .enter "w" "a", .leave "v" "a", .leave "w" "a", .enter "v" "b", .enter "w" "b",
        .leave "v" "b", .leave "w" "b"]
    runFrom (through visitors tree) [] = (.error "b", events)
      ∧ ∃ calls, runFrom (through (notingFrom 0 visitors) tree) ([], [])
          = (.error "b", (events, calls)) := by
  intro leaf tree visitors events
  obtain ⟨hequal, hends⟩ := through_recursive
  have hthrough : runFrom (through visitors tree) [] = (.error "b", events) := by
    rw [hequal (HookM String (List Event))]
    rfl
  obtain ⟨outcome, after, calls, hended, hnoted, -⟩ := hends String (List Event) visitors tree []
  obtain ⟨rfl, rfl⟩ := Prod.mk.inj (hended.symm.trans hthrough)
  exact ⟨hthrough, calls, hnoted⟩

end Walk

end PhpPrefixer
