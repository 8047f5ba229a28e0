import PhpPrefixer.Prefixer

/-!
# Trees further on in a source

When the same code stands further on in another file, its tree is the same but for the offsets:
`Node.shift` adds a number to all of them. The visitors tell nodes apart by their types and fields, and
never by their offsets, so whatever they look up in a tree is found at the shifted place, and their edits
are shifted with it.
-/

namespace PhpPrefixer

/-- An edit of the same text further on. -/
def Edit.shift (k : Nat) (e : Edit) : Edit := ⟨e.start + k, e.stop + k, e.text⟩

namespace Node

mutual

/-- The same tree further on. -/
def shift (k : Nat) : Node → Node
  | mk type named missing span field children =>
    mk type named missing ⟨span.start + k, span.stop + k⟩ field (shiftAll k children)

/-- The same trees further on. -/
def shiftAll (k : Nat) : List Node → List Node
  | [] => []
  | n :: ns => shift k n :: shiftAll k ns

end

/-- Several trees are shifted one by one. -/
theorem shiftAll_eq (k : Nat) (ns : List Node) : shiftAll k ns = ns.map (shift k) := by
  induction ns with
  | nil => rfl
  | cons n ns ih => rw [shiftAll, ih, List.map_cons]

variable (k : Nat) (n : Node)

/-- Shifting a node keeps its type. -/
@[simp] theorem type_shift : (n.shift k).type = n.type := by
  cases n
  rfl

/-- Shifting a node keeps whether it is named. -/
@[simp] theorem named_shift : (n.shift k).named = n.named := by
  cases n
  rfl

/-- Shifting a node keeps its field. -/
@[simp] theorem field_shift : (n.shift k).field = n.field := by
  cases n
  rfl

/-- Shifting a node moves both ends of its span. -/
theorem span_shift : (n.shift k).span = ⟨n.span.start + k, n.span.stop + k⟩ := by
  cases n
  rfl

/-- Shifting a node shifts its children. -/
theorem children_shift : (n.shift k).children = n.children.map (shift k) := by
  cases n
  exact shiftAll_eq k _

/-- Shifting a node keeps whether it is a name. -/
@[simp] theorem isName_shift : (n.shift k).isName = n.isName := by
  simp [isName]

/-- A tree that is not moved on is the same. -/
theorem shift_zero : n.shift 0 = n := by
  induction n using Node.rec (motive_2 := fun ns => shiftAll 0 ns = ns) with
  | mk type named missing span field children ih => simp [shift, ih]
  | nil => rfl
  | cons n ns ihn ihns => simp [shiftAll, ihn, ihns]

section

variable {k : Nat} {p : Node → Bool}

/-- What chooses nodes without looking at their offsets chooses the same ones among shifted nodes. -/
theorem comp_shift (hp : ∀ m, p (m.shift k) = p m) : p ∘ shift k = p := funext hp

/-- A test that does not see the shift selects the same nodes, shifted. -/
theorem filter_map_shift (hp : ∀ m, p (m.shift k) = p m) (ns : List Node) :
    (ns.map (shift k)).filter p = (ns.filter p).map (shift k) := by
  rw [List.filter_map, comp_shift hp]

/-- A test that does not see the shift finds the same node, shifted. -/
theorem find?_map_shift (hp : ∀ m, p (m.shift k) = p m) (ns : List Node) :
    (ns.map (shift k)).find? p = (ns.find? p).map (shift k) := by
  rw [List.find?_map, comp_shift hp]

/-- A test that does not see the shift takes the same nodes from the front, shifted. -/
theorem takeWhile_map_shift (hp : ∀ m, p (m.shift k) = p m) (ns : List Node) :
    (ns.map (shift k)).takeWhile p = (ns.takeWhile p).map (shift k) := by
  rw [List.takeWhile_map, comp_shift hp]

/-- A test that does not see the shift holds of some node or of none, as before. -/
theorem any_map_shift (hp : ∀ m, p (m.shift k) = p m) (ns : List Node) :
    (ns.map (shift k)).any p = ns.any p := by
  rw [List.any_map, comp_shift hp]

/-- A test that does not see the shift keeps the same optional node, shifted. -/
theorem filter_toList_shift (hp : ∀ m, p (m.shift k) = p m) (m : Option Node) :
    (m.map (shift k)).toList.filter p = (m.toList.filter p).map (shift k) := by
  rw [Option.toList_map, filter_map_shift hp]

end

/-- Shifting a node shifts its named children. -/
theorem namedChildren_shift : (n.shift k).namedChildren = n.namedChildren.map (shift k) := by
  rw [namedChildren, children_shift, filter_map_shift (named_shift k)]
  rfl

/-- Shifting a node shifts the child in a field. -/
theorem child?_shift (field : String) : (n.shift k).child? field = (n.child? field).map (shift k) := by
  rw [child?, children_shift, find?_map_shift fun m => by rw [field_shift]]
  rfl

end Node

/-- A shifted node is replaced by the shifted edit. -/
theorem Edit.replacing_shift (k : Nat) (n : Node) (t : Text) :
    Edit.replacing (n.shift k) t = (Edit.replacing n t).shift k := by
  rw [Edit.replacing, Node.span_shift]
  rfl

namespace Import

/-- The same import further on. -/
def shift (k : Nat) (i : Import) : Import := { i with node := i.node.shift k }

variable (k : Nat)

/-- Shifting a clause keeps the word for its kind. -/
theorem kindWord?_shift (n : Node) : kindWord? (n.shift k) = kindWord? n := by
  rw [kindWord?, Node.children_shift, List.findSome?_map]
  simp only [Function.comp_def, Node.type_shift]
  rfl

/-- Shifting the parts of a clause shifts the node of the imported name. -/
theorem target?_shift (parts : List Node) :
    target? (parts.map (Node.shift k)) = (target? parts).map (Node.shift k) := by
  rw [target?, Node.takeWhile_map_shift (fun m => by rw [Node.type_shift]),
    Node.find?_map_shift (Node.isName_shift k)]
  rfl

/-- Shifting the parts of a clause shifts the nodes of the local names. -/
theorem givenNames_shift (afterAs : Bool) (parts : List Node) :
    givenNames afterAs (parts.map (Node.shift k))
      = (givenNames afterAs parts).map (Option.map (Node.shift k)) := by
  fun_induction givenNames afterAs parts with
  | case1 => rfl
  | case2 afterAs n ns has ih => rw [List.map_cons, givenNames, Node.type_shift, if_pos has, ih]
  | case3 afterAs n ns has hclause ih =>
    rw [List.map_cons, givenNames, Node.type_shift, if_neg has, if_pos hclause, ih,
      Node.namedChildren_shift, Node.find?_map_shift (fun m => by rw [Node.type_shift])]
    rfl
  | case4 afterAs n ns has hclause hname ih =>
    rw [List.map_cons, givenNames, Node.type_shift, Node.isName_shift, if_neg has, if_neg hclause,
      if_pos hname, ih]
    rfl
  | case5 afterAs n ns has hclause hname ih =>
    rw [List.map_cons, givenNames, Node.type_shift, Node.isName_shift, if_neg has, if_neg hclause,
      if_neg hname, ih]

end Import

namespace Prefixing

variable (k : Nat) (n : Node)

/-- Shifting a group of imports shifts its common part. -/
theorem groupBase?_shift : groupBase? (n.shift k) = (groupBase? n).map (Node.shift k) := by
  rw [groupBase?, Node.namedChildren_shift,
    Node.takeWhile_map_shift (fun m => by rw [Node.type_shift]),
    Node.filter_map_shift (Node.isName_shift k), List.getLast?_map]
  rfl

/-- Whether imports move does not depend on where they stand, and neither does how their group is
split. -/
theorem groupEdit?_shift (r : Relocation) (base : Node) (baseName : Text) (is : List Import) :
    groupEdit? r (n.shift k) (base.shift k) baseName (is.map (Import.shift k))
      = (groupEdit? r n base baseName is).map (Edit.shift k) := by
  have hmoves : r.movesImport ∘ Import.shift k = r.movesImport := rfl
  have hsplit : r.splitGroup (is.map (Import.shift k)) = r.splitGroup is := by
    rw [Relocation.splitGroup, List.map_map]
    rfl
  rw [groupEdit?, groupEdit?, List.all_map, List.any_map, hmoves, hsplit, Edit.replacing_shift,
    Edit.replacing_shift]
  split
  · rfl
  split
  · rfl
  · rfl

/-- Shifting a node keeps whether it is a test for an instance. -/
theorem isInstanceTest_shift : isInstanceTest (n.shift k) = isInstanceTest n := by
  rw [isInstanceTest, isInstanceTest, Node.type_shift, Node.child?_shift]
  cases n.child? "operator" with
  | none => rfl
  | some operator => simp

/-- Shifting a node shifts the references to classes in it. -/
theorem classReferences_shift :
    classReferences (n.shift k) = (classReferences n).map (Node.shift k) := by
  have hname := Node.isName_shift k
  unfold classReferences
  simp only [Node.type_shift, Node.namedChildren_shift, isInstanceTest_shift, Node.child?_shift,
    Node.filter_map_shift hname, Node.filter_toList_shift hname, ← List.map_take, ← List.map_drop]
  split
  · rfl
  split
  · rfl
  split
  · rfl
  split
  · rfl
  split
  · rfl
  split
  · rfl
  · rfl

end Prefixing

namespace Node

variable (k : Nat)

/-- Shifting arguments shifts the values at their positions. -/
theorem positional_shift (ns : List Node) :
    positional (ns.map (shift k)) = (positional ns).map (Option.map (shift k)) := by
  fun_induction positional ns with
  | case1 => rfl
  | case2 n ns hcomment ih => rw [List.map_cons, positional, type_shift, if_pos hcomment, ih]
  | case3 n ns hcomment hargument hnamed =>
    rw [List.map_cons, positional, type_shift, if_neg hcomment, if_pos hargument, child?_shift,
      children_shift, any_map_shift (fun m => by rw [type_shift]), Option.isSome_map, if_pos hnamed]
    rfl
  | case4 n ns hcomment hargument hnamed ih =>
    rw [List.map_cons, positional, type_shift, if_neg hcomment, if_pos hargument, child?_shift,
      children_shift, any_map_shift (fun m => by rw [type_shift]), Option.isSome_map,
      if_neg hnamed, ih, namedChildren_shift, List.getLast?_map]
    rfl
  | case5 n ns hcomment hargument ih =>
    rw [List.map_cons, positional, type_shift, if_neg hcomment, if_neg hargument, ih]
    rfl

/-- Shifting a call shifts its list of arguments. -/
theorem argumentList?_shift (call : Node) :
    (call.shift k).argumentList? = call.argumentList?.map (shift k) := by
  rw [argumentList?, argumentList?, child?_shift]
  cases call.child? "arguments" with
  | some n => rfl
  | none =>
    rw [namedChildren_shift]
    exact find?_map_shift (fun m => by rw [type_shift]) _

/-- Shifting a call shifts the argument at a position. -/
theorem argument?_shift (call : Node) (position : Nat) :
    (call.shift k).argument? position = (call.argument? position).map (shift k) := by
  have hvalues : (call.shift k).argumentValues = call.argumentValues.map (Option.map (shift k)) := by
    rw [argumentValues, argumentValues, argumentList?_shift]
    cases call.argumentList? with
    | none => rfl
    | some n =>
      rw [Option.map_some]
      dsimp only
      rw [namedChildren_shift, positional_shift]
  rw [argument?, argument?, hvalues, List.getElem?_map]
  cases call.argumentValues[position]? with
  | none => rfl
  | some value => rfl

/-- Shifting a node keeps the literal it is. -/
theorem literal?_shift (n : Node) (text : Text) : (n.shift k).literal? text = n.literal? text := by
  have htypes : (n.shift k).namedChildren.map (·.type) = n.namedChildren.map (·.type) := by
    rw [namedChildren_shift, List.map_map]
    exact List.map_congr_left fun m _ => type_shift k m
  rw [literal?, literal?, htypes, type_shift]

end Node

/-- Shifting a node keeps the global function that it calls. -/
theorem Prefixing.globalCallee?_shift (k : Nat) (n : Node) (text : Text) :
    globalCallee? (n.shift k) text = globalCallee? n text := by
  rw [globalCallee?, globalCallee?, Node.isName_shift]

end PhpPrefixer
