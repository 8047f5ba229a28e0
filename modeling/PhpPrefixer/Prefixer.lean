import PhpPrefixer.Prefixing.Embedded
import PhpPrefixer.Prefixing.Imports
import PhpPrefixer.Prefixing.Literals
import PhpPrefixer.Prefixing.Names
import PhpPrefixer.Prefixing.Namespaces

/-!
# Moving a file under the prefix

A prefixer takes the contents of a file through parsing, a walk with five visitors, and printing.
Files that hold no code are given back as they are. Code embedded in a file is treated in the same
way, and may embed code itself. Embedded code stands between quotes that it does not contain, so each
level of embedding has fewer quotes than the one around it; the number of quotes of a file bounds the
levels.
-/

namespace PhpPrefixer

/-- What is common to the files of a run. -/
structure Prefixer where
  /-- The parser. -/
  parse : Text → Parsed
  /-- The native symbols. -/
  natives : NativeSymbols
  /-- The extensions of files that hold code. -/
  extensions : List Text
  /-- What to do with what cannot be handled. -/
  policy : UnsupportedPolicy
  /-- Whether names computed at run time are reported. -/
  warnDynamic : Bool

namespace Prefixer

/-- The visitors of a walk, in order: namespaces are entered before imports are read, and imports are
known before names are resolved. -/
def visitors (w : FileSetting) (root : Node) (treat : Text → Plan Text) :
    List (Visitor PrefixingM) :=
  [Prefixing.namespaces w root, Prefixing.imports w, Prefixing.names w, Prefixing.literals w,
    Prefixing.embedded w treat]

/-- The entry about a finished walk. -/
def walkEntry (path : Text) (entered edits renames : Nat) : Entry where
  level := .debug
  channel := .traversal
  message := String.ofList path ++ ": visited " ++ toString entered ++ " nodes, " ++ toString edits
    ++ " edits, " ++ toString renames ++ " renames"

/-- The walk through a file; gives what it leads to. -/
def walk (w : FileSetting) (root : Node) (treat : Text → Plan Text) : Plan FileState := do
  let (entered, s) ← (Walk.through (visitors w root treat) root).run .start
  Plan.write (walkEntry w.path entered s.edits.length s.renames.length)
  return s

/-- The stages of a file. -/
inductive Stage where
  /-- Before anything. -/
  | start
  /-- Being parsed. -/
  | parsing
  /-- Parsed. -/
  | parsed
  /-- Not parsed because of an error. -/
  | parseFailed
  /-- Being walked through. -/
  | traversing
  /-- Printed. -/
  | serialized
  deriving DecidableEq, Repr

/-- The name of a stage. -/
def Stage.name : Stage → String
  | start => "START"
  | parsing => "PARSING"
  | parsed => "PARSED"
  | parseFailed => "PARSE_FAILED"
  | traversing => "TRAVERSING"
  | serialized => "SERIALIZED"

/-- Telling that a file goes from one stage to another. -/
def advance (path : Text) (a b : Stage) : Plan Unit :=
  Plan.note .debug .files (String.ofList path ++ ": " ++ a.name ++ " -> " ++ b.name)

/-- The source and the tree of the code of a file. -/
def parseFile (p : Prefixer) (path code : Text) : Plan (Source × Node) := do
  advance path .start .parsing
  match (p.parse code).check code with
  | .error e =>
    advance path .parsing .parseFailed
    Plan.note .error .files (String.ofList path ++ ": " ++ e.message)
    Plan.fail (.unparsable e)
  | .ok tree =>
    advance path .parsing .parsed
    return tree

/-- The text of a source with edits applied. -/
def printFile (s : Source) (edits : List Edit) : Plan Text :=
  match s.print edits with
  | .ok t => pure t
  | .error (.overlap o) => Plan.fail (.overlap o)
  | .error .undecodable => Plan.fail .undecodable

/-- The code of a file moved under a checked prefix. -/
def moveCode (p : Prefixer) (whitelist : Whitelist) (path root : Text)
    (treat : Text → Plan Text) (code : Text) : Plan Text := do
  let (source, tree) ← p.parseFile path code
  let w : FileSetting :=
    { path, source, policy := p.policy, warnDynamic := p.warnDynamic,
      relocation := ⟨root, ⟨p.natives, whitelist⟩⟩ }
  Plan.note .debug .preparation
    ("Created traverser with " ++ toString (visitors w tree treat).length ++ " visitors for "
      ++ toString tree.children.length ++ " top-level nodes")
  advance path .parsed .traversing
  let s ← walk w tree treat
  let printed ← printFile source s.edits
  advance path .traversing .serialized
  Plan.note .debug .files
    (String.ofList path ++ ": " ++ toString s.renames.length ++ " symbols prefixed")
  return printed

/-- The contents of a file moved under a prefix, with at most `levels` levels of embedded code. -/
def treatWithin (p : Prefixer) (whitelist : Whitelist) (path : Text) :
    (levels : Nat) → (given : Option Text) → (contents : Text) → Plan Text
  | 0, _, contents => pure contents
  | levels + 1, given, contents =>
    if Recognition.holdsCode p.extensions path contents then
      match Prefix.validate given with
      | .error e => Plan.fail (.badPrefix e)
      | .ok root => do
        let (line, code) := Recognition.splitShebang contents
        let moved ← p.moveCode whitelist path root
          (p.treatWithin whitelist path levels (some root)) code
        return line ++ moved
    else do
      Plan.note .debug .files (String.ofList path ++ ": NOT_SOURCE, delegating")
      return contents

/-- Whether a character is a quote. -/
def isQuote (c : Char) : Bool := c = '\'' || c = '"'

/-- A bound on the levels of code embedded in a text, itself included. -/
def levelsOf (contents : Text) : Nat := contents.countP isQuote + 1

/-- The contents of a file moved under a prefix. -/
def treat (p : Prefixer) (whitelist : Whitelist) (path : Text) (given : Option Text)
    (contents : Text) : Plan Text :=
  p.treatWithin whitelist path (levelsOf contents) given contents

end Prefixer

end PhpPrefixer
