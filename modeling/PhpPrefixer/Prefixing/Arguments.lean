import PhpPrefixer.Literal
import PhpPrefixer.Prefixing.Basic

/-!
# Arguments of calls

Which expressions a call passes by position, which function it calls, and which of its arguments are
literals.
-/

namespace PhpPrefixer

namespace Node

/-- The node that holds the arguments of a call. -/
def argumentList? (call : Node) : Option Node :=
  match call.child? "arguments" with
  | some n => some n
  | none => call.namedChildren.find? fun c => c.type = "arguments"

/-- The expressions passed by position, up to the first argument that is named or unpacked. An
argument without an expression counts, but gives none. -/
def positional : List Node → List (Option Node)
  | [] => []
  | n :: ns =>
    if n.type = "comment" then positional ns
    else if n.type = "argument" then
      if (n.child? "name").isSome || n.children.any (fun c => c.type = "...") then []
      else n.namedChildren.getLast? :: positional ns
    else some n :: positional ns

/-- The expressions a call passes by position. -/
def argumentValues (call : Node) : List (Option Node) :=
  match call.argumentList? with
  | some n => positional n.namedChildren
  | none => []

/-- The expression a call passes at a position. -/
def argument? (call : Node) (position : Nat) : Option Node := (call.argumentValues[position]?).join

/-- The literal a node with some text is. -/
def literal? (n : Node) (text : Text) : Option Literal :=
  Literal.read? n.type (n.namedChildren.map (·.type)) text

end Node

namespace Prefixing

/-- The lower-cased name of the global function a node with some text names. -/
def globalCallee? (n : Node) (text : Text) : Option Text :=
  let name := Name.bare text
  if n.isName && !name.contains Name.separator then some (Text.lower name) else none

/-- The global function a call calls, if the call tells. -/
def callee? (w : FileSetting) (call : Node) : PrefixingM (Option Text) := do
  match call.child? "function" with
  | none => return none
  | some n => return globalCallee? n (← w.textOf n)

end Prefixing

end PhpPrefixer
