import PhpPrefixer.Prefixing.Arguments
import PhpPrefixer.Recognition

/-!
# Embedded code

Code passed to `eval` as a literal is treated like the code of a file and written back in single
quotes. How the code of a file is treated is a parameter here.
-/

namespace PhpPrefixer.Prefixing

open PrefixingM

/-- Embedded code as the code of a file. -/
def asFile (code : Text) : Text := openTag ++ ' ' :: code

/-- The code of a file as embedded code: without the opening tag and the blanks around it. -/
def asEmbedded (file : Text) : Text :=
  let code := Text.trimBlankStart file
  Text.trimBlank (if openTag.isPrefixOf code then code.drop openTag.length else code)

/-- What is done about embedded code at a node; `treat` is what is done to the code of a file. -/
def enterEmbedded (w : FileSetting) (treat : Text → Plan Text) (n : Node) :
    PrefixingM Descent := do
  if n.type ≠ "function_call_expression" then return .onward
  else if (← callee? w n) ≠ some "eval".toList then return .onward
  else
    match n.argument? 0 with
    | none => return .onward
    | some value =>
      match value.literal? (← w.textOf value) with
      | none =>
        w.reportDynamic (w.source.lineOf value) "eval".toList
        return .onward
      | some literal =>
        let file ← liftM (treat (asFile literal.value))
        queue (.replacing value (Literal.singleQuoted (asEmbedded file)))
        return .skip

/-- The visitor for embedded code. -/
def embedded (w : FileSetting) (treat : Text → Plan Text) : Visitor PrefixingM where
  before := pure ()
  enter s := enterEmbedded w treat s.node
  leave _ := pure ()
  after := pure ()

end PhpPrefixer.Prefixing
