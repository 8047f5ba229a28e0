import PhpPrefixer.Prefixing.Basic

/-!
# Namespace declarations

Every namespace moves under the prefix. Code outside any namespace gets a declaration of its own
after the opening tag and the `declare` statements. A namespace that is excluded, or already under
the prefix, stays.
-/

namespace PhpPrefixer.Prefixing

open PrefixingM

/-- The type of namespace declarations. -/
def namespaceType : String := "namespace_definition"

/-- The last of the `declare` statements in front of the first other statement. -/
def lastDeclare? : List Node → Option Node
  | [] => none
  | n :: ns =>
    if n.type = "declare_statement" then some ((lastDeclare? ns).getD n)
    else if n.type = "comment" then lastDeclare? ns
    else none

/-- The insertion of a namespace declaration after the opening tag `tag`, which the statements `rest`
follow. -/
def wrapping (root : Text) (tag : Node) (rest : List Node) : Edit :=
  let declaration := "namespace ".toList ++ root ++ [';']
  match lastDeclare? rest with
  | some n => .inserting n.span.stop (['\n', '\n'] ++ declaration)
  | none =>
    match rest with
    | n :: _ => .inserting n.span.start (declaration ++ ['\n', '\n'])
    | [] => .inserting tag.span.stop (['\n', '\n'] ++ declaration)

/-- Giving code outside any namespace a declaration, where that is possible. -/
def wrapGlobal (w : FileSetting) (root : Node) : PrefixingM Unit := do
  let statements := root.namedChildren
  if statements.any fun n => n.type = namespaceType then pure ()
  else
    match statements with
    | [] => enterNamespace [] false
    | first :: rest =>
      if first.type = "php_tag" then
        enterNamespace [] true
        queue (wrapping w.relocation.root first rest)
        note .debug .namespaces
          (w.shownPath ++ ": global code wrapped in namespace "
            ++ String.ofList w.relocation.root)
      else
        enterNamespace [] false
        if rest.any fun n => n.type = "php_tag" then
          w.reportUnsupported (w.source.lineOf first)
            "global code preceded by inline HTML cannot be namespaced"

/-- Moving a namespace declaration under the prefix. -/
def enterDeclaration (w : FileSetting) (n : Node) : PrefixingM Unit := do
  match n.child? "name" with
  | none =>
    match n.children with
    | [] => fail .missingKeyword
    | keyword :: _ =>
      queue (.inserting keyword.span.stop (' ' :: w.relocation.root))
      enterNamespace [] true
  | some nameNode =>
    let name := Name.bare (← w.textOf nameNode)
    if w.relocation.hasMoved name then enterNamespace name false
    else if (w.relocation.classifier.classify .nameSpace name).keeps then
      note .debug .namespaces
        (w.shownPath ++ ": namespace " ++ String.ofList name ++ " is excluded")
      enterNamespace name false
    else
      let renamed := w.relocation.relocate name
      queue (.replacing nameNode renamed)
      w.record .nameSpace name renamed
      enterNamespace name true

/-- The visitor for namespace declarations. -/
def namespaces (w : FileSetting) (root : Node) : Visitor PrefixingM where
  before := wrapGlobal w root
  enter s := do
    if s.node.type = namespaceType then enterDeclaration w s.node
    return .onward
  leave s :=
    if s.node.type = namespaceType && (s.node.child? "body").isSome then enterNamespace [] true
    else pure ()
  after := pure ()

end PhpPrefixer.Prefixing
