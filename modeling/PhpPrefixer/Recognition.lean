import PhpPrefixer.Path
import PhpPrefixer.Text.Blank
import PhpPrefixer.Text.Word

/-!
# Recognising code

A file holds code if it has one of the given extensions. A file with another extension does not. One
without any extension does if it starts with the opening tag, or with a line that names an
interpreter and then the opening tag. The line that names an interpreter is no part of the code.
-/

namespace PhpPrefixer

/-- What code starts with. -/
def openTag : Text := "<?php".toList

namespace Recognition

/-- Whether a character ends a line. -/
def isLineEnd (c : Char) : Bool := c = '\r' || c = '\n'

/-- A text cut after its first line, if that line is ended. -/
def cutLine? (t : Text) : Option (Text × Text) :=
  let line := t.takeWhile fun c => !isLineEnd c
  match t.dropWhile fun c => !isLineEnd c with
  | '\r' :: '\n' :: rest => some (line ++ ['\r', '\n'], rest)
  | c :: rest => some (line ++ [c], rest)
  | [] => none

/-- The line in front of the code that names an interpreter, with its end, and the rest. -/
def splitShebang (contents : Text) : Text × Text :=
  match contents with
  | '#' :: '!' :: t =>
    match cutLine? t with
    | some (line, rest) => ('#' :: '!' :: line, rest)
    | none => ([], contents)
  | _ => ([], contents)

/-- Whether a text is numbers with dots between them. -/
def isVersion (t : Text) : Bool :=
  (Text.pieces '.' t).all fun piece => piece ≠ [] && piece.all Text.isDigit

/-- Whether a text is the name of an interpreter, possibly with a version. -/
def isInterpreter (name : Text) : Bool :=
  match name with
  | 'p' :: 'h' :: 'p' :: version => version = [] || isVersion version
  | _ => false

/-- Whether a line naming an interpreter is followed by code. -/
def hasShebang (contents : Text) : Bool :=
  let (line, rest) := splitShebang contents
  line ≠ [] && openTag.isPrefixOf rest
    && (Text.words (line.drop 2)).any fun word => isInterpreter (Path.name word)

/-- Whether a file holds code. -/
def holdsCode (extensions : List Text) (path contents : Text) : Bool :=
  if Path.matchesAny path extensions then true
  else if Path.hasExtension path then false
  else openTag.isPrefixOf (Text.trimBlankStart contents) || hasShebang contents

/-- Splitting off the first line loses nothing. -/
theorem cutLine?_append {t line rest : Text} (h : cutLine? t = some (line, rest)) :
    line ++ rest = t := by
  unfold cutLine? at h
  have split := List.takeWhile_append_dropWhile (p := fun c => !isLineEnd c) (l := t)
  generalize t.dropWhile (fun c => !isLineEnd c) = tail at h split
  split at h
  · simp only [Option.some.injEq, Prod.mk.injEq] at h
    simpa [← h.1, ← h.2] using split
  · simp only [Option.some.injEq, Prod.mk.injEq] at h
    simpa [← h.1, ← h.2] using split
  · simp at h

/-- Splitting off the line that names an interpreter loses nothing. -/
theorem splitShebang_append (contents : Text) :
    (splitShebang contents).1 ++ (splitShebang contents).2 = contents := by
  unfold splitShebang
  split
  · split
    · rename_i line rest h
      simp [cutLine?_append h]
    · rfl
  · rfl

end Recognition

end PhpPrefixer
