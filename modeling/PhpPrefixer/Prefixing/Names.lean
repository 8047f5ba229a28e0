import PhpPrefixer.Prefixing.Basic

/-!
# Names in code

Classes, functions and constants are referred to and declared at places the tree tells apart. A
reference is written anew where that is needed; a declaration moves with its namespace, and is only
recorded.
-/

namespace PhpPrefixer.Prefixing

open PrefixingM

/-- The types of class-like declarations. -/
def classDeclarationTypes : List String :=
  ["class_declaration", "interface_declaration", "trait_declaration", "enum_declaration"]

/-- The types of class bodies, where constants belong to the class. -/
def classBodyTypes : List String := ["declaration_list", "enum_declaration_list"]

/-- The types of nodes below which a name may stand for a constant. -/
def constantParents : List String :=
  ["argument", "arguments", "array_element_initializer", "binary_expression", "clone_expression",
    "conditional_expression", "echo_statement", "exit_statement", "expression_statement",
    "include_expression", "include_once_expression", "match_condition_list",
    "parenthesized_expression", "print_intrinsic", "property_initializer", "require_expression",
    "require_once_expression", "return_statement", "sequence_expression", "subscript_expression",
    "throw_expression", "unary_op_expression", "yield_expression"]

/-- The types of nodes in one field of which a name stands for a constant, with the field. -/
def constantFields : List (String × String) :=
  [("arrow_function", "body"), ("assignment_expression", "right"),
    ("augmented_assignment_expression", "right"), ("case_statement", "value"),
    ("cast_expression", "value"), ("enum_case", "value"),
    ("match_conditional_expression", "return_expression"),
    ("match_default_expression", "return_expression"), ("property_element", "default_value"),
    ("property_promotion_parameter", "default_value"), ("simple_parameter", "default_value"),
    ("static_variable_declaration", "value")]

/-- Whether a node tests for a class. -/
def isInstanceTest (n : Node) : Bool :=
  n.type = "binary_expression" &&
    match n.child? "operator" with
    | some operator => operator.type = "instanceof"
    | none => false

/-- Whether a name found at a site stands for a constant. -/
def isConstantSite (s : Site) : Bool :=
  match s.parent with
  | none => false
  | some parent =>
    if parent.type = "const_element" then s.nth ≠ 0
    else if constantParents.contains parent.type then
      !s.occupies "name" && !(isInstanceTest parent && s.occupies "right")
    else
      match constantFields.find? fun entry => entry.1 = parent.type with
      | some entry => s.occupies entry.2
      | none => false

/-- The names directly below a node that stand for classes. -/
def classReferences (n : Node) : List Node :=
  if ["object_creation_expression", "class_constant_access_expression", "named_type",
      "attribute"].contains n.type then
    (n.namedChildren.take 1).filter (·.isName)
  else if ["base_clause", "class_interface_clause", "type_list",
      "use_declaration"].contains n.type then
    n.namedChildren.filter (·.isName)
  else if n.type = "use_instead_of_clause" then (n.namedChildren.drop 1).filter (·.isName)
  else if n.type = "scoped_call_expression" || n.type = "scoped_property_access_expression" then
    (n.child? "scope").toList.filter (·.isName)
  else if isInstanceTest n then (n.child? "right").toList.filter (·.isName)
  else if n.type = "catch_clause" then (n.child? "type").toList.filter (·.isName)
  else []

/-- The constants a declaration declares, unless it stands in a class body. -/
def declaredConstants (s : Site) : List Node :=
  if s.parent.any fun parent => classBodyTypes.contains parent.type then []
  else
    (s.node.namedChildren.filter fun c => c.type = "const_element").filterMap
      fun c => c.namedChildren.head?

/-- Writing some references of a kind anew. -/
def moveReferences (w : FileSetting) (kind : SymbolKind) : List Node → PrefixingM Unit
  | [] => pure ()
  | n :: ns => do
    w.moveReference kind n
    moveReferences w kind ns

/-- Recording some declarations of a kind. -/
def recordAll (w : FileSetting) (kind : SymbolKind) : List Node → PrefixingM Unit
  | [] => pure ()
  | n :: ns => do
    w.recordDeclaration kind (some n)
    recordAll w kind ns

/-- What is done about the names at a site. -/
def enterNames (w : FileSetting) (s : Site) : PrefixingM Unit :=
  let n := s.node
  if n.isName then
    if isConstantSite s then w.moveReference .constant n else pure ()
  else if classDeclarationTypes.contains n.type then
    w.recordDeclaration .classLike (n.child? "name")
  else if n.type = "function_definition" then w.recordDeclaration .function (n.child? "name")
  else if n.type = "const_declaration" then recordAll w .constant (declaredConstants s)
  else if n.type = "function_call_expression" then
    moveReferences w .function ((n.child? "function").toList.filter (·.isName))
  else moveReferences w .classLike (classReferences n)

/-- The visitor for names in code. -/
def names (w : FileSetting) : Visitor PrefixingM where
  before := pure ()
  enter s := do
    enterNames w s
    return .onward
  leave _ := pure ()
  after := pure ()

end PhpPrefixer.Prefixing
