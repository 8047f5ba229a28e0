/-!
# Syntax trees

A parser hands over trees of nodes. A node has a type, a span of bytes in its source, possibly a
field it occupies in its parent, and children; anonymous nodes are the punctuation and keywords.
A missing node is one the parser made up to go on after an error. The order of the nodes of a tree
in its source is `Node.preorder`.
-/

namespace PhpPrefixer

/-- A span of bytes. -/
structure Span where
  /-- The offset of the first byte. -/
  start : Nat
  /-- The offset after the last byte. -/
  stop : Nat
  deriving DecidableEq, Repr

/-- A node of a syntax tree. -/
inductive Node where
  /-- A node from its parts. -/
  | mk (type : String) (named missing : Bool) (span : Span) (field : Option String)
      (children : List Node)
  deriving Repr

namespace Node

/-- The type of a node. -/
def type : Node → String
  | mk type .. => type

/-- Whether a node is more than punctuation or a keyword. -/
def named : Node → Bool
  | mk _ named .. => named

/-- Whether a node was made up by the parser. -/
def missing : Node → Bool
  | mk _ _ missing .. => missing

/-- The bytes a node covers. -/
def span : Node → Span
  | mk _ _ _ span .. => span

/-- The field a node occupies in its parent. -/
def field : Node → Option String
  | mk _ _ _ _ field _ => field

/-- The children of a node. -/
def children : Node → List Node
  | mk _ _ _ _ _ children => children

/-- The children that are more than punctuation or keywords. -/
def namedChildren (n : Node) : List Node := n.children.filter (·.named)

/-- The child that occupies a field. -/
def child? (n : Node) (field : String) : Option Node :=
  n.children.find? fun c => c.field = some field

/-- The place among the named ones of the first sibling in a field, if this one is named. -/
def placeAmong? (field : String) : List Node → Option Nat
  | [] => none
  | c :: cs =>
    if c.field = some field then if c.named then some 0 else none
    else (placeAmong? field cs).map fun nth => if c.named then nth + 1 else nth

/-- The place among the named children of the child that occupies a field, if it is one of them. -/
def place? (n : Node) (field : String) : Option Nat := placeAmong? field n.children

mutual

/-- A node and all nodes below it, in the order of the source. -/
def preorder : Node → List Node
  | mk type named missing span field children =>
    mk type named missing span field children :: preorderAll children

/-- Several nodes and all nodes below them. -/
def preorderAll : List Node → List Node
  | [] => []
  | n :: ns => preorder n ++ preorderAll ns

end

mutual

/-- The number of nodes of a tree. -/
def size : Node → Nat
  | mk _ _ _ _ _ children => 1 + sizeAll children

/-- The number of nodes of several trees. -/
def sizeAll : List Node → Nat
  | [] => 0
  | n :: ns => size n + sizeAll ns

end

/-- Whether a node is a token: it has no children and covers something. -/
def isToken (n : Node) : Bool := n.children.isEmpty && n.span.start < n.span.stop

/-- A tree has its root, and the nodes below it. -/
theorem size_eq (n : Node) : n.size = 1 + sizeAll n.children := by
  cases n
  rfl

/-- A tree is its root and then what stands below it. -/
theorem preorder_eq (n : Node) : n.preorder = n :: preorderAll n.children := by
  cases n
  rfl

/-- Every tree has a node. -/
theorem size_pos (n : Node) : 0 < n.size := by
  rw [size_eq]
  omega

/-- The nodes of two lists of trees add up. -/
theorem sizeAll_append (ns ms : List Node) : sizeAll (ns ++ ms) = sizeAll ns + sizeAll ms := by
  induction ns with
  | nil => simp [sizeAll]
  | cons n ns ih =>
    simp only [List.cons_append, sizeAll, ih]
    omega

end Node

/-- A tree as the parser handed it over. -/
structure Parsed where
  /-- The node over the whole source. -/
  root : Node
  /-- Whether the source has a syntax error. -/
  hasError : Bool

end PhpPrefixer
