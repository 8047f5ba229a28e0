import PhpPrefixer.Source

/-!
# Syntax errors

An error is reported on the token at which parsing failed. The first node that is an error or was
made up shows the place. If it holds a symbol at its end, the error is its first token; if it is made
up, empty, or ends in punctuation, parsing failed on the token after it.

The nodes of a tree are listed by working off a stack, so that deep trees need no deep recursion.
-/

namespace PhpPrefixer

/-- What is wrong with a source. -/
inductive SyntaxFault where
  /-- There is an error somewhere. -/
  | somewhere
  /-- A token is unexpected. -/
  | unexpected (token : Text)
  /-- More was expected. -/
  | endOfFile
  deriving DecidableEq, Repr

/-- A syntax error. -/
structure SyntaxError where
  /-- What is wrong. -/
  fault : SyntaxFault
  /-- The line, counted from one. -/
  line : Nat
  deriving DecidableEq, Repr

namespace SyntaxError

/-- The greatest number of characters of a token that is shown. -/
def shownLength : Nat := 30

/-- The wording of an error. -/
def message (e : SyntaxError) : String :=
  let fault :=
    match e.fault with
    | .somewhere => "Syntax error"
    | .unexpected token => "Syntax error, unexpected '" ++ String.ofList token ++ "'"
    | .endOfFile => "Syntax error, unexpected end of file"
  fault ++ " on line " ++ toString e.line

/-- A node of a tree together with the siblings after it, the siblings after its parent, and so on
outwards. -/
structure Place where
  /-- The node. -/
  node : Node
  /-- What comes after it, from the inside out. -/
  after : List (List Node)

namespace Place

/-- The places of siblings, if this comes after their parent. -/
def among (after : List (List Node)) : List Node → List Place
  | [] => []
  | n :: ns => ⟨n, ns :: after⟩ :: among after ns

/-- The places of the children of a node. -/
def below (p : Place) : List Place := among p.after p.node.children

/-- The places of siblings are those of all of them, in their order. -/
theorem map_node_among (after : List (List Node)) (ns : List Node) :
    (among after ns).map (·.node) = ns := by
  induction ns with
  | nil => rfl
  | cons n ns ih => rw [among, List.map_cons, ih]

/-- The number of nodes that the places on a stack lead to. -/
def weight (stack : List Place) : Nat := Node.sizeAll (stack.map (·.node))

/-- A stack gets lighter when a place makes way for those of its children. -/
theorem weight_below_lt (p : Place) (stack : List Place) :
    weight (p.below ++ stack) < weight (p :: stack) := by
  rw [weight, List.map_append, below, map_node_among, Node.sizeAll_append, weight, List.map_cons,
    Node.sizeAll, Node.size_eq]
  omega

/-- The places that are met when a stack is worked off, where a place that is taken from it makes way for
those of its children. -/
def unstack : List Place → List Place
  | [] => []
  | p :: stack => p :: unstack (p.below ++ stack)
termination_by stack => weight stack
decreasing_by exact weight_below_lt p stack

/-- The places of a tree, in the order of the source. -/
def all (root : Node) : List Place := unstack [⟨root, []⟩]

end Place

/-- The nodes of a tree, in the order of the source. -/
def nodes (root : Node) : List Node := (Place.all root).map (·.node)

/-- The first token of a tree. -/
def firstToken? (n : Node) : Option Node := (nodes n).find? (·.isToken)

/-- The last token of a tree. -/
def lastToken? (n : Node) : Option Node := ((nodes n).filter (·.isToken)).getLast?

/-- The first token after a place. -/
def Place.firstTokenAfter? (p : Place) : Option Node :=
  p.after.findSome? fun siblings => siblings.findSome? firstToken?

/-- The first node of a tree that passes a test. -/
def find? (test : Node → Bool) (root : Node) : Option Place := (Place.all root).find? (test ·.node)

/-- Whether a node shows an error. -/
def isErroneous (n : Node) : Bool := n.type = "ERROR" || n.missing

/-- The token on which an error at a place is reported. -/
def offending? (p : Place) : Option Node :=
  match lastToken? p.node with
  | none => p.firstTokenAfter?
  | some last =>
    if p.node.missing || !last.named then p.firstTokenAfter? else firstToken? p.node

/-- The error of a tree that has one. -/
def ofTree (s : Source) (root : Node) : SyntaxError :=
  match find? isErroneous root with
  | none => ⟨.somewhere, s.lineOf root⟩
  | some p =>
    match offending? p with
    | none => ⟨.endOfFile, s.lineOf p.node⟩
    | some token =>
      ⟨.unexpected ((Text.decodeLossy (s.bytesOf token)).take shownLength), s.lineOf token⟩

end SyntaxError

/-- The source and the tree of a text, or its syntax error. -/
def Parsed.check (p : Parsed) (t : Text) : Except SyntaxError (Source × Node) :=
  let s := Source.ofText t
  if p.hasError then .error (SyntaxError.ofTree s p.root) else .ok (s, p.root)

end PhpPrefixer
