import PhpPrefixer.Plan

/-!
# Patchers

A patcher mends the text of a file after it was moved. Patchers are applied in order, each to the
text the one before it gave. One that fails ends the work on the file.
-/

namespace PhpPrefixer

/-- What a patcher sees of a file. -/
structure PatchInput where
  /-- The path of the file. -/
  path : Text
  /-- The prefix as it was given. -/
  given : Option Text
  /-- The text of the file. -/
  text : Text

/-- What mends the text of a file. -/
structure Patcher where
  /-- Its name. -/
  name : Text
  /-- What it gives, or how it fails. -/
  apply : PatchInput → Except PatchFault Value

namespace Patcher

/-- The name of a patcher without one. -/
def defaultName : Text := "TextPatcher".toList

/-- The text a patcher gives for a file. -/
def patch (p : Patcher) (input : PatchInput) : Except PatchError Text :=
  match p.apply input with
  | .error fault => .error ⟨p.name, input.path, fault⟩
  | .ok (.text t) => .ok t
  | .ok v => .error ⟨p.name, input.path, .notText v.typeName⟩

/-- The text after some patchers; `number` is the number of the first of them, and `count` is how many
there are in all. -/
def applyFrom (count number : Nat) (path : Text) (given : Option Text) :
    List Patcher → Text → Plan Text
  | [], text => pure text
  | p :: ps, text =>
    match p.patch ⟨path, given, text⟩ with
    | .error e => Plan.fail (.patch e)
    | .ok patched => do
      Plan.note .debug .patching
        (String.ofList path ++ ": applied patcher " ++ toString number ++ "/" ++ toString count)
      applyFrom count (number + 1) path given ps patched

/-- The text after all patchers. -/
def applyAll (ps : List Patcher) (path : Text) (given : Option Text) (text : Text) : Plan Text :=
  applyFrom ps.length 1 path given ps text

/-- A text with something at its end. -/
def appending (name added : Text) : Patcher where
  name := name
  apply input := .ok (.text (input.text ++ added))

/-- A text with each occurrence of `old`, which is not empty, replaced, from left to right; `skip` is
the number of characters that belong to an occurrence already replaced. -/
def replaceFrom (old new : Text) (skip : Nat) : Text → Text
  | [] => []
  | c :: cs =>
    if skip = 0 then
      if old.isPrefixOf (c :: cs) then new ++ replaceFrom old new (old.length - 1) cs
      else c :: replaceFrom old new 0 cs
    else replaceFrom old new (skip - 1) cs

/-- A text with each occurrence of `old` replaced. An empty text occurs in front of each character and
at the end. -/
def replaceAll (old new text : Text) : Text :=
  if old = [] then text.flatMap (fun c => new ++ [c]) ++ new else replaceFrom old new 0 text

/-- A text with something replaced. -/
def replacing (name old new : Text) : Patcher where
  name := name
  apply input := .ok (.text (replaceAll old new input.text))

/-- All that is known of a file, with bars between. -/
def describing (name : Text) : Patcher where
  name := name
  apply input :=
    let given := (input.given.map Value.text).getD .null
    .ok (.text (input.path ++ '|' :: given.display ++ '|' :: input.text))

/-- A fixed value. -/
def giving (name : Text) (v : Value) : Patcher where
  name := name
  apply _ := .ok v

/-- A failure. -/
def failing (name : Text) (kind : String) (message : Text) : Patcher where
  name := name
  apply _ := .error (.raised kind message)

end Patcher

end PhpPrefixer
