import PhpPrefixer.Prefixing.Basic

/-!
# Imports

A `use` statement imports symbols under local names. The targets move under the prefix; the local
names stay, so code that uses them needs no change. A group of imports of which only some move is
split into one statement for each import.
-/

namespace PhpPrefixer

/-- One imported symbol. -/
structure Import where
  /-- The node that spells its name. -/
  node : Node
  /-- The name of the symbol, without leading separator. -/
  name : Text
  /-- The kind of the symbol. -/
  kind : SymbolKind
  /-- The local name, if one is given. -/
  given : Option Text
  /-- Whether the name is written with a leading separator. -/
  leading : Bool

namespace Import

/-- The name under which the symbol is known in the file. -/
def localName (i : Import) : Text := i.given.getD (Name.shortOf i.name)

/-- The word after `use` for a kind of symbol. -/
def keyword : SymbolKind → Text
  | .function => "function ".toList
  | .constant => "const ".toList
  | _ => []

/-- The statement that imports the symbol under another name. -/
def statement (i : Import) (name : Text) : Text :=
  let given :=
    match i.given with
    | some g => " as ".toList ++ g
    | none => []
  "use ".toList ++ keyword i.kind ++ name ++ given ++ [';']

/-- The kind of symbol a node has a word for. -/
def kindWord? (n : Node) : Option SymbolKind :=
  n.children.findSome? fun c =>
    if c.type = "function" then some .function
    else if c.type = "const" then some .constant
    else none

/-- The node that spells the imported name, among the parts of a clause. -/
def target? (parts : List Node) : Option Node :=
  (parts.takeWhile fun n => n.type ≠ "as").find? (·.isName)

/-- The nodes that give a local name, among the parts of a clause; the last one counts. -/
def givenNames (afterAs : Bool) : List Node → List (Option Node)
  | [] => []
  | n :: ns =>
    if n.type = "as" then givenNames true ns
    else if n.type = "namespace_aliasing_clause" then
      (n.namedChildren.find? fun c => c.type = "name") :: givenNames afterAs ns
    else if afterAs && n.isName then some n :: givenNames afterAs ns
    else givenNames afterAs ns

end Import

namespace Relocation

/-- Whether an import moves. -/
def movesImport (r : Relocation) (i : Import) : Bool := r.moves i.kind i.name

/-- The name an import has afterwards. -/
def importName (r : Relocation) (i : Import) : Text :=
  if r.movesImport i then r.relocate i.name else i.name

/-- One statement for each import. -/
def splitGroup (r : Relocation) (imports : List Import) : Text :=
  Text.glue '\n' (imports.map fun i => i.statement (r.importName i))

end Relocation

namespace Prefixing

open PrefixingM

/-- The text of the node that gives a local name; an empty one gives none. -/
def readGiven (w : FileSetting) : List (Option Node) → PrefixingM (Option Text)
  | [] => pure none
  | [none] => pure none
  | [some n] => do
    let t ← w.textOf n
    return if t = [] then none else some t
  | none :: rest => readGiven w rest
  | some n :: rest => do
    let _ ← w.textOf n
    readGiven w rest

/-- The import a clause makes, if the clause has a name. -/
def readClause (w : FileSetting) (kind : SymbolKind) (base : Text) (clause : Node) :
    PrefixingM (Option Import) := do
  let given ← readGiven w (Import.givenNames false clause.children)
  match Import.target? clause.children with
  | none => return none
  | some node =>
    let text ← w.textOf node
    return some
      { node, given,
        name := Name.join [base, Name.bare text],
        kind := (Import.kindWord? clause).getD kind,
        leading := text.head? = some Name.separator }

/-- The imports of some clauses, or nothing if one of them has no name. All clauses are read. -/
def readClauses (w : FileSetting) (kind : SymbolKind) : List Node → PrefixingM (Option (List Import))
  | [] => pure (some [])
  | clause :: rest => do
    let first ← readClause w kind [] clause
    let others ← readClauses w kind rest
    return do
      let i ← first
      let is ← others
      return i :: is

/-- The imports of the clauses of a group, up to the first clause without a name, which is given
instead. -/
def readGroup (w : FileSetting) (kind : SymbolKind) (base : Text) :
    List Node → PrefixingM (Except Node (List Import))
  | [] => pure (.ok [])
  | clause :: rest => do
    match ← readClause w kind base clause with
    | none => return .error clause
    | some i =>
      match ← readGroup w kind base rest with
      | .error n => return .error n
      | .ok is => return .ok (i :: is)

/-- Making one import known, and recording that its symbol moves if it does. -/
def adopt (w : FileSetting) (i : Import) : PrefixingM Unit := do
  if w.relocation.movesImport i then w.record i.kind i.name (w.relocation.relocate i.name)
  importName i.kind i.localName i.name

/-- Making some imports known. -/
def adoptAll (w : FileSetting) : List Import → PrefixingM Unit
  | [] => pure ()
  | i :: is => do
    adopt w i
    adoptAll w is

/-- Moving the targets of some imports, each where it is written. -/
def moveAll (w : FileSetting) : List Import → PrefixingM Unit
  | [] => pure ()
  | i :: is => do
    if w.relocation.movesImport i then
      let leading := if i.leading then [Name.separator] else []
      queue (.replacing i.node (leading ++ w.relocation.relocate i.name))
    adopt w i
    moveAll w is

/-- A statement that imports symbols one by one. -/
def enterPlain (w : FileSetting) (n : Node) (kind : SymbolKind) : PrefixingM Unit := do
  let clauses := n.namedChildren.filter fun c => c.type = "namespace_use_clause"
  match ← readClauses w kind clauses with
  | some (i :: is) => moveAll w (i :: is)
  | _ => w.reportUnsupported (w.source.lineOf n) "unrecognised use statement"

/-- The type of groups of imports. -/
def groupType : String := "namespace_use_group"

/-- The node that spells the common part of the names of a group. -/
def groupBase? (n : Node) : Option Node :=
  ((n.namedChildren.takeWhile fun c => c.type ≠ groupType).filter (·.isName)).getLast?

/-- The change to a group of imports: if all move, their common part moves; if only some do, the
group is split. -/
def groupEdit? (r : Relocation) (n base : Node) (baseName : Text) (imports : List Import) :
    Option Edit :=
  if imports.all r.movesImport then some (.replacing base (r.relocate baseName))
  else if imports.any r.movesImport then some (.replacing n (r.splitGroup imports))
  else none

/-- A statement that imports a group of symbols. -/
def enterGroup (w : FileSetting) (n group : Node) (kind : SymbolKind) : PrefixingM Unit := do
  match groupBase? n with
  | none =>
    w.reportUnsupported (w.source.lineOf n) "group use statement without a base namespace"
  | some base =>
    let baseName := Name.bare (← w.textOf base)
    let clauses := group.namedChildren.filter fun c =>
      c.type = "namespace_use_clause" || c.type = "namespace_use_group_clause"
    match ← readGroup w kind baseName clauses with
    | .error clause =>
      w.reportUnsupported (w.source.lineOf clause) "unrecognised group use clause"
    | .ok imports =>
      match groupEdit? w.relocation n base baseName imports with
      | some e => queue e
      | none => pure ()
      if imports.any w.relocation.movesImport && !imports.all w.relocation.movesImport then
        note .debug .namespaces
          (w.shownPath ++ ": split group use of " ++ String.ofList baseName ++ " into "
            ++ toString imports.length ++ " statements")
      adoptAll w imports

/-- The visitor for imports. -/
def imports (w : FileSetting) : Visitor PrefixingM where
  before := pure ()
  enter s := do
    if s.node.type = "namespace_use_declaration" then
      let kind := (Import.kindWord? s.node).getD .classLike
      match s.node.namedChildren.find? fun c => c.type = groupType with
      | some group => enterGroup w s.node group kind
      | none => enterPlain w s.node kind
      return .skip
    else return .onward
  leave _ := pure ()
  after := pure ()

end Prefixing

end PhpPrefixer
