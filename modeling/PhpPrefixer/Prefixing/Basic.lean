import PhpPrefixer.Plan
import PhpPrefixer.Reference
import PhpPrefixer.Walk

/-!
# Work on a file

While a file is walked through, the lexical scope changes, edits are queued, and renames are recorded.
The edits are applied only when the walk has ended. What is to be done about a name is decided by
`Relocation`; here it is carried out.
-/

namespace PhpPrefixer

/-- What to do with a construct that cannot be handled. -/
inductive UnsupportedPolicy where
  /-- Leave it, and say so. -/
  | skip
  /-- Give the file up. -/
  | fail
  deriving DecidableEq, Repr

namespace UnsupportedPolicy

/-- The word for a policy. -/
def word : UnsupportedPolicy → String
  | skip => "skip"
  | fail => "fail"

/-- The policy a text names. -/
def ofText? (t : Text) : Option UnsupportedPolicy :=
  [skip, fail].find? fun p => p.word.toList = t

end UnsupportedPolicy

/-- What does not change while a file is walked through. -/
structure FileSetting where
  /-- The path of the file. -/
  path : Text
  /-- What decides about names. -/
  relocation : Relocation
  /-- What to do with what cannot be handled. -/
  policy : UnsupportedPolicy
  /-- Whether names computed at run time are reported. -/
  warnDynamic : Bool
  /-- The source of the file. -/
  source : Source

/-- What changes while a file is walked through. -/
structure FileState where
  /-- The lexical scope. -/
  scope : Lexical
  /-- The queued edits. -/
  edits : List Edit
  /-- The renames made in this file, in order of first occurrence. -/
  renames : List Rename

namespace FileState

/-- The state before a walk. -/
def start : FileState := ⟨.start, [], []⟩

/-- The state with a rename, if its symbol had none. -/
def withRename (s : FileState) (r : Rename) : FileState :=
  if s.renames.any fun old => old.key = r.key then s else { s with renames := s.renames ++ [r] }

end FileState

/-- Work on a file. -/
abbrev PrefixingM := StateT FileState Plan

namespace PrefixingM

/-- Telling something. -/
def note (level : Level) (channel : Channel) (message : String) : PrefixingM Unit :=
  liftM (Plan.note level channel message)

/-- Giving the file up. -/
def fail {α : Type} (f : Failure) : PrefixingM α := liftM (Plan.fail f : Plan α)

/-- Queueing an edit. -/
def queue (e : Edit) : PrefixingM Unit := modify fun s => { s with edits := s.edits ++ [e] }

/-- Entering a namespace. -/
def enterNamespace (space : Text) (moved : Bool) : PrefixingM Unit :=
  modify fun s => { s with scope := .entered space moved }

/-- Importing a name. -/
def importName (kind : SymbolKind) (localName target : Text) : PrefixingM Unit :=
  modify fun s => { s with scope := s.scope.importing kind localName target }

end PrefixingM

namespace FileSetting

open PrefixingM

/-- The path as it is put into messages. -/
def shownPath (w : FileSetting) : String := String.ofList w.path

/-- The text of a node. -/
def textOf (w : FileSetting) (n : Node) : PrefixingM Text :=
  match w.source.text? n with
  | some t => pure t
  | none => fail .undecodable

/-- Recording a rename for the run and for this file. -/
def record (w : FileSetting) (kind : SymbolKind) (name target : Text) : PrefixingM Unit := do
  let r : Rename := ⟨name, target, kind, some w.path⟩
  liftM (Plan.record r)
  modify (·.withRename r)

/-- Reporting a construct on a line that cannot be handled. -/
def reportUnsupported (w : FileSetting) (line : Nat) (reason : String) : PrefixingM Unit :=
  match w.policy with
  | .fail => fail (.unsupported ⟨w.path, line, reason⟩)
  | .skip =>
    note .warning .traversal
      (w.shownPath ++ ":" ++ toString line ++ ": " ++ reason ++ ", left unprefixed")

/-- Reporting a name on a line that is computed at run time. -/
def reportDynamic (w : FileSetting) (line : Nat) (callee : Text) : PrefixingM Unit :=
  if w.warnDynamic then
    note .warning .traversal
      (w.shownPath ++ ":" ++ toString line ++ ": non-literal name passed to "
        ++ String.ofList callee ++ "() cannot be prefixed")
  else pure ()

/-- Carrying out what is decided about a reference. -/
def moveReference (w : FileSetting) (kind : SymbolKind) (n : Node) : PrefixingM Unit := do
  let text ← w.textOf n
  let scope := (← get).scope
  let decided := w.relocation.reference scope kind text
  match decided.replacement with
  | some replacement => queue (.replacing n replacement)
  | none => pure ()
  match decided.rename with
  | some (name, target) => w.record kind name target
  | none => pure ()

/-- Carrying out what is decided about a declaration. -/
def recordDeclaration (w : FileSetting) (kind : SymbolKind) (name : Option Node) :
    PrefixingM Unit := do
  match name with
  | none => pure ()
  | some n =>
    let short ← w.textOf n
    let scope := (← get).scope
    let place := w.shownPath ++ ":" ++ toString (w.source.lineOf n) ++ ": "
    match w.relocation.declare scope kind short with
    | .ignored => pure ()
    | .renamed name target => w.record kind name target
    | .stranded name =>
      note .warning .declarations
        (place ++ "whitelisted " ++ kind.word ++ " '" ++ String.ofList name
          ++ "' is declared in a prefixed namespace, references to it will not find it")
    | .shadowing name =>
      note .debug .declarations
        (place ++ kind.word ++ " '" ++ String.ofList name ++ "' shadows a native symbol")

/-- Carrying out what is decided about a name in a string; gives the new contents. -/
def prefixMention (w : FileSetting) (kind : SymbolKind) (value : Text) :
    PrefixingM (Option Text) := do
  match w.relocation.mention? kind value with
  | none => return none
  | some m =>
    w.record m.kind m.name m.renamed
    return some m.spelled

end FileSetting

/-- The types of nodes that spell a name. -/
def nameTypes : List String := ["name", "qualified_name", "namespace_name", "relative_name"]

/-- Whether a node spells a name. -/
def Node.isName (n : Node) : Bool := nameTypes.contains n.type

end PhpPrefixer
