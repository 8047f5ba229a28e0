import PhpPrefixer.Prefixing.Names
import PhpPrefixer.SyntaxError

/-!
# Trees and walks through them

The nodes of a tree, in the order of the source, are its preorder (`Node.preorder`). A node brings
everything below it along, so what holds of all nodes of a tree holds of all nodes a walk through it comes
to. Proofs about trees go by `Node.induction`: a property that every node has when its children have it. A
walk is also given by `Walk.runWithin`, which counts its turns and computes by structural recursion.
-/

namespace PhpPrefixer

namespace Node

/-- A tree is no larger than the trees it is one of. -/
theorem size_le_sizeAll {c : Node} {ns : List Node} (h : c ∈ ns) : c.size ≤ sizeAll ns := by
  induction ns with
  | nil => exact absurd h List.not_mem_nil
  | cons m ms ih =>
    simp only [sizeAll]
    rcases List.mem_cons.mp h with rfl | hms
    · omega
    · have hsize := ih hms
      omega

/-- A child is smaller than its parent. -/
theorem size_lt_of_mem {c n : Node} (h : c ∈ n.children) : c.size < n.size := by
  have hall := size_le_sizeAll h
  rw [size_eq n]
  omega

/-- Every node has a property that a node has when its children do. -/
@[elab_as_elim]
theorem induction {P : Node → Prop} (step : ∀ n, (∀ c ∈ n.children, P c) → P n) (n : Node) : P n := by
  induction hsize : n.size using Nat.strongRecOn generalizing n with
  | ind size ih =>
    apply step
    intro c hc
    have hless := size_lt_of_mem hc
    exact ih c.size (by omega) c rfl

/-- A node is in its own tree. -/
theorem mem_preorder_self (n : Node) : n ∈ n.preorder := by
  rw [preorder_eq]
  exact List.mem_cons_self

/-- The nodes of several trees are the nodes of each of them. -/
theorem mem_preorderAll_iff {n : Node} {ns : List Node} :
    n ∈ preorderAll ns ↔ ∃ m ∈ ns, n ∈ m.preorder := by
  induction ns with
  | nil => simp [preorderAll]
  | cons m ms ih => simp [preorderAll, ih]

/-- A node of a tree is its root, or a node of the tree of a child. -/
theorem mem_preorder_iff {n m : Node} :
    n ∈ m.preorder ↔ n = m ∨ ∃ c ∈ m.children, n ∈ c.preorder := by
  rw [preorder_eq, List.mem_cons, mem_preorderAll_iff]

/-- A child is in the tree of its parent. -/
theorem mem_preorder_child {c n : Node} (h : c ∈ n.children) : c ∈ n.preorder :=
  mem_preorder_iff.mpr (.inr ⟨c, h, mem_preorder_self c⟩)

/-- What stands below a node of a tree is a node of the tree. -/
theorem mem_preorder_trans {n m root : Node} (hn : n ∈ m.preorder) (hm : m ∈ root.preorder) :
    n ∈ root.preorder := by
  induction root using Node.induction with
  | step root ih =>
    rcases mem_preorder_iff.mp hm with rfl | ⟨c, hc, hmc⟩
    · exact hn
    · exact mem_preorder_iff.mpr (.inr ⟨c, hc, ih c hc hmc⟩)

/-- The child that occupies a field is a child with that field. -/
theorem mem_children_of_child? {n c : Node} {field : String} (h : n.child? field = some c) :
    c ∈ n.children ∧ c.field = some field := by
  have hfound := List.find?_some h
  exact ⟨List.mem_of_find?_eq_some h, of_decide_eq_true hfound⟩

/-- Named children are children. -/
theorem mem_children_of_namedChildren {n c : Node} (h : c ∈ n.namedChildren) : c ∈ n.children :=
  (List.mem_filter.mp h).1

end Node

/-- A text is accepted exactly when its tree shows no error, and then comes with that tree. -/
theorem Parsed.check_eq_ok_iff {p : Parsed} {t : Text} {source : Source} {tree : Node} :
    p.check t = .ok (source, tree)
      ↔ p.hasError = false ∧ source = Source.ofText t ∧ tree = p.root := by
  cases herror : p.hasError with
  | true => simp [check, herror]
  | false => simp [check, herror, eq_comm]

namespace Site

/-- The sites among siblings are those of the named ones, in their order. -/
theorem among_map_node (parent : Node) (nth : Nat) (children : List Node) :
    (among parent nth children).map (·.node) = children.filter (·.named) := by
  induction children generalizing nth with
  | nil => rfl
  | cons c cs ih =>
    unfold among
    split
    · next hnamed => simp [hnamed, ih]
    · next hnamed => simp [hnamed, ih]

/-- Below a site are the sites of the named children. -/
theorem below_map_node (s : Site) : s.below.map (·.node) = s.node.namedChildren :=
  among_map_node s.node 0 s.node.children

/-- A site below another one is that of a child. -/
theorem mem_children_of_below {s t : Site} (h : t ∈ s.below) : t.node ∈ s.node.children := by
  have hnode : t.node ∈ s.below.map (·.node) := List.mem_map_of_mem h
  rw [below_map_node] at hnode
  exact Node.mem_children_of_namedChildren hnode

end Site

namespace Walk

variable {m : Type → Type} [Monad m]

/-- Doing what is on the stack in at most `turns` turns, which makes a walk a structural recursion. -/
def runWithin (visitors : List (Visitor m)) : (turns entered : Nat) → List Task → m Nat
  | 0, entered, _ => pure entered
  | _ + 1, entered, [] => pure entered
  | turns + 1, entered, .leave s :: rest => do
    leaveAll visitors s
    runWithin visitors turns entered rest
  | turns + 1, entered, .enter s :: rest => do
    let skip ← enterAll visitors s
    runWithin visitors turns (entered + 1)
      (if skip then Task.leave s :: rest else s.below.map Task.enter ++ Task.leave s :: rest)

/-- Every task weighs something. -/
theorem Task.weight_pos (task : Task) : 0 < task.weight := by
  cases task with
  | enter s =>
    have hsize := Node.size_pos s.node
    simp only [weight]
    omega
  | leave s => exact Nat.one_pos

/-- A walk takes no more turns than its stack is heavy. -/
theorem run_eq_runWithin (visitors : List (Visitor m)) {turns : Nat} (entered : Nat)
    {tasks : List Task} (h : weight tasks ≤ turns) :
    run visitors entered tasks = runWithin visitors turns entered tasks := by
  induction turns generalizing entered tasks with
  | zero =>
    cases tasks with
    | nil => rw [run, runWithin]
    | cons task rest =>
      have hpos := task.weight_pos
      simp only [weight] at h
      omega
  | succ turns ih =>
    cases tasks with
    | nil => rw [run, runWithin]
    | cons task rest =>
      cases task with
      | leave s =>
        simp only [weight, Task.weight] at h
        rw [run, runWithin]
        exact bind_congr fun _ => ih entered (by omega)
      | enter s =>
        rw [run, runWithin]
        refine bind_congr fun skip => ih (entered + 1) ?_
        have hless := weight_entered_lt s rest skip
        omega

/-- A whole walk, in a form that computes. -/
theorem through_eq (visitors : List (Visitor m)) (root : Node) :
    through visitors root = do
      beforeAll visitors
      let tasks := [Task.enter (.ofRoot root)]
      let entered ← runWithin visitors (weight tasks) 0 tasks
      afterAll visitors
      return entered := by
  rw [through, run_eq_runWithin visitors 0 (Nat.le_refl _)]

end Walk

namespace Prefixing

/-- The child in a field, if it passes a test, is what is left of it. -/
theorem mem_filter_child? {n m : Node} {field : String} {p : Node → Bool}
    (h : m ∈ (n.child? field).toList.filter p) :
    n.child? field = some m ∧ p m = true := by
  obtain ⟨hm, hp⟩ := List.mem_filter.mp h
  exact ⟨Option.mem_toList.mp hm, hp⟩

/-- References to classes are names directly below the node. -/
theorem mem_classReferences {n m : Node} (h : m ∈ classReferences n) :
    m ∈ n.children ∧ m.isName = true := by
  have hnamed : ∀ ms : List Node, (∀ k ∈ ms, k ∈ n.namedChildren) → m ∈ ms.filter (·.isName) →
      m ∈ n.children ∧ m.isName = true := by
    intro ms hms hm
    obtain ⟨hmem, hname⟩ := List.mem_filter.mp hm
    exact ⟨Node.mem_children_of_namedChildren (hms m hmem), hname⟩
  have hfield : ∀ field, m ∈ (n.child? field).toList.filter (·.isName) →
      m ∈ n.children ∧ m.isName = true := by
    intro field hm
    obtain ⟨hchild, hname⟩ := mem_filter_child? hm
    exact ⟨(Node.mem_children_of_child? hchild).1, hname⟩
  unfold classReferences at h
  split at h
  · exact hnamed _ (fun _ => List.mem_of_mem_take) h
  split at h
  · exact hnamed _ (fun _ hk => hk) h
  split at h
  · exact hnamed _ (fun _ => List.mem_of_mem_drop) h
  split at h
  · exact hfield _ h
  split at h
  · exact hfield _ h
  split at h
  · exact hfield _ h
  · exact absurd h List.not_mem_nil

end Prefixing

end PhpPrefixer
