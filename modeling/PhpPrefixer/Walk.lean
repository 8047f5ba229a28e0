import PhpPrefixer.Node

/-!
# Walks

A walk goes through a tree depth first and shows every named node to a list of visitors: to all of
them when it enters the node, and again when it leaves it. When a visitor asks for it on entering,
the walk does not go below the node. The walk keeps a stack of things to do, so that deep trees need
no deep recursion; the weight of the stack falls with every step.

Visitors act in a monad of their own choice.
-/

namespace PhpPrefixer

/-- A node where the walk finds it. -/
structure Site where
  /-- The node. -/
  node : Node
  /-- The node above it. -/
  parent : Option Node
  /-- Its place among the named children of its parent, counted from zero. -/
  nth : Nat

namespace Site

/-- The site at the top of a tree. -/
def ofRoot (root : Node) : Site := ⟨root, none, 0⟩

/-- The sites of the named ones among some children, the first of them at the given place. -/
def among (parent : Node) (nth : Nat) : List Node → List Site
  | [] => []
  | c :: cs =>
    if c.named then ⟨c, some parent, nth⟩ :: among parent (nth + 1) cs else among parent nth cs

/-- Whether a site is the one that occupies a field of the node above it. -/
def occupies (s : Site) (field : String) : Bool :=
  s.parent.any fun parent => parent.place? field = some s.nth

/-- The sites below a site. -/
def below (s : Site) : List Site := among s.node 0 s.node.children

end Site

/-- What a visitor wants after entering a node. -/
inductive Descent where
  /-- Go below the node. -/
  | onward
  /-- Do not go below it. -/
  | skip
  deriving DecidableEq, Repr

/-- What is done at the nodes of a walk. -/
structure Visitor (m : Type → Type) where
  /-- Before the walk. -/
  before : m Unit
  /-- On entering a node. -/
  enter : Site → m Descent
  /-- On leaving a node. -/
  leave : Site → m Unit
  /-- After the walk. -/
  after : m Unit

namespace Walk

/-- Something the walk has still to do. -/
inductive Task where
  /-- Enter a node. -/
  | enter (s : Site)
  /-- Leave a node. -/
  | leave (s : Site)

/-- The weight of a task: twice the nodes it leads to, or one for leaving. -/
def Task.weight : Task → Nat
  | enter s => 2 * s.node.size
  | leave _ => 1

/-- The weight of a stack. -/
def weight : List Task → Nat
  | [] => 0
  | task :: tasks => task.weight + weight tasks

/-- The weights of two lists of tasks add up. -/
theorem weight_append (tasks more : List Task) :
    weight (tasks ++ more) = weight tasks + weight more := by
  induction tasks with
  | nil => simp [weight]
  | cons task tasks ih =>
    simp only [List.cons_append, weight, ih]
    omega

/-- Entering the named ones among some siblings weighs at most twice their nodes. -/
theorem weight_among_le (parent : Node) (nth : Nat) (children : List Node) :
    weight ((Site.among parent nth children).map Task.enter) ≤ 2 * Node.sizeAll children := by
  induction children generalizing nth with
  | nil => simp [Site.among, weight]
  | cons c cs ih =>
    unfold Site.among
    split
    · have h := ih (nth + 1)
      simp only [List.map_cons, weight, Task.weight, Node.sizeAll]
      omega
    · have h := ih nth
      simp only [Node.sizeAll]
      omega

/-- Entering a node makes the stack lighter, whether the walk goes below it or not. -/
theorem weight_entered_lt (s : Site) (rest : List Task) (skip : Bool) :
    weight (if skip then Task.leave s :: rest
      else s.below.map Task.enter ++ Task.leave s :: rest) < weight (Task.enter s :: rest) := by
  have hs := Node.size_eq s.node
  split
  · simp only [weight, Task.weight]
    omega
  · have h := weight_among_le s.node 0 s.node.children
    rw [weight_append]
    simp only [weight, Task.weight, Site.below]
    omega

variable {m : Type → Type} [Monad m]

/-- All visitors enter a node, in order; tells whether one of them wants the walk to stay above. -/
def enterAll : List (Visitor m) → Site → m Bool
  | [], _ => pure false
  | v :: vs, s => do
    let descent ← v.enter s
    let more ← enterAll vs s
    return descent = .skip || more

/-- All visitors leave a node, in order. -/
def leaveAll : List (Visitor m) → Site → m Unit
  | [], _ => pure ()
  | v :: vs, s => do
    v.leave s
    leaveAll vs s

/-- Doing everything on the stack; gives the number of nodes entered. -/
def run (visitors : List (Visitor m)) (entered : Nat) : List Task → m Nat
  | [] => pure entered
  | .leave s :: rest => do
    leaveAll visitors s
    run visitors entered rest
  | .enter s :: rest => do
    let skip ← enterAll visitors s
    run visitors (entered + 1)
      (if skip then Task.leave s :: rest else s.below.map Task.enter ++ Task.leave s :: rest)
termination_by tasks => weight tasks
decreasing_by
  · simp only [weight, Task.weight]
    omega
  · exact weight_entered_lt s rest skip

/-- All visitors prepare, in order. -/
def beforeAll : List (Visitor m) → m Unit
  | [] => pure ()
  | v :: vs => do
    v.before
    beforeAll vs

/-- All visitors finish, in order. -/
def afterAll : List (Visitor m) → m Unit
  | [] => pure ()
  | v :: vs => do
    v.after
    afterAll vs

/-- A whole walk through a tree; gives the number of nodes entered. -/
def through (visitors : List (Visitor m)) (root : Node) : m Nat := do
  beforeAll visitors
  let entered ← run visitors 0 [.enter (.ofRoot root)]
  afterAll visitors
  return entered

end Walk

end PhpPrefixer
