import PhpPrefixer.Prefixing.Arguments

/-!
# Names in strings

Some native functions and classes take names of symbols as strings. Where such a string is a literal
the name in it moves; where it is computed, that is reported.
-/

namespace PhpPrefixer.Prefixing

open PrefixingM

/-- The functions that take names, with the positions and kinds of the names. -/
def nameTakingFunctions : List (String × List (Nat × SymbolKind)) :=
  [("class_exists", [(0, .classLike)]), ("interface_exists", [(0, .classLike)]),
    ("trait_exists", [(0, .classLike)]), ("enum_exists", [(0, .classLike)]),
    ("is_a", [(1, .classLike)]), ("is_subclass_of", [(1, .classLike)]),
    ("class_implements", [(0, .classLike)]), ("class_parents", [(0, .classLike)]),
    ("class_uses", [(0, .classLike)]), ("get_class_methods", [(0, .classLike)]),
    ("get_class_vars", [(0, .classLike)]), ("get_parent_class", [(0, .classLike)]),
    ("method_exists", [(0, .classLike)]), ("property_exists", [(0, .classLike)]),
    ("class_alias", [(0, .classLike), (1, .classLike)]), ("function_exists", [(0, .function)]),
    ("is_callable", [(0, .function)]), ("call_user_func", [(0, .function)]),
    ("call_user_func_array", [(0, .function)]), ("forward_static_call", [(0, .function)]),
    ("forward_static_call_array", [(0, .function)]),
    ("register_shutdown_function", [(0, .function)]),
    ("spl_autoload_register", [(0, .function)]), ("array_map", [(0, .function)]),
    ("array_filter", [(1, .function)]), ("array_walk", [(1, .function)]),
    ("usort", [(1, .function)]), ("uasort", [(1, .function)]), ("uksort", [(1, .function)]),
    ("define", [(0, .constant)]), ("defined", [(0, .constant)]), ("constant", [(0, .constant)])]

/-- The classes whose constructors take names, with the positions and kinds of the names. -/
def nameTakingClasses : List (String × List (Nat × SymbolKind)) :=
  [("reflectionclass", [(0, .classLike)]), ("reflectionenum", [(0, .classLike)]),
    ("reflectionobject", [(0, .classLike)]), ("reflectionmethod", [(0, .classLike)]),
    ("reflectionproperty", [(0, .classLike)]), ("reflectionclassconstant", [(0, .classLike)]),
    ("reflectionfunction", [(0, .function)])]

/-- The positions and kinds of the names taken by something with a lower-cased name. -/
def namesTaken (table : List (String × List (Nat × SymbolKind))) (name : Text) :
    List (Nat × SymbolKind) :=
  match table.find? fun entry => entry.1.toList = name with
  | some entry => entry.2
  | none => []

/-- The types of expressions that may compute a name. -/
def computedTypes : List String :=
  ["variable_name", "binary_expression", "encapsed_string", "heredoc", "member_access_expression",
    "subscript_expression"]

/-- Moving the name in one argument. -/
def moveArgument (w : FileSetting) (callee : Text) (kind : SymbolKind) (value : Node) :
    PrefixingM Unit := do
  let text ← w.textOf value
  match value.literal? text with
  | none =>
    if computedTypes.contains value.type then w.reportDynamic (w.source.lineOf value) callee
  | some literal =>
    match ← w.prefixMention kind literal.value with
    | some spelled => queue (.replacing value (literal.encode spelled))
    | none => pure ()

/-- Moving the names in the arguments of a call. -/
def moveArguments (w : FileSetting) (callee : Text) (call : Node) :
    List (Nat × SymbolKind) → PrefixingM Unit
  | [] => pure ()
  | (position, kind) :: rest => do
    match call.argument? position with
    | some value => moveArgument w callee kind value
    | none => pure ()
    moveArguments w callee call rest

/-- What is done about the names in strings at a node. -/
def enterLiterals (w : FileSetting) (n : Node) : PrefixingM Unit := do
  if n.type = "function_call_expression" then
    match ← callee? w n with
    | some callee => moveArguments w callee n (namesTaken nameTakingFunctions callee)
    | none => pure ()
  else if n.type = "object_creation_expression" then
    match n.namedChildren.head? with
    | some classNode =>
      if classNode.isName then
        let text ← w.textOf classNode
        let name := Text.lower ((← get).scope.resolve .classLike text).name
        moveArguments w name n (namesTaken nameTakingClasses name)
    | none => pure ()

/-- The visitor for names in strings. -/
def literals (w : FileSetting) : Visitor PrefixingM where
  before := pure ()
  enter s := do
    enterLiterals w s.node
    return .onward
  leave _ := pure ()
  after := pure ()

end PhpPrefixer.Prefixing
