import PhpPrefixer.Pattern.Matching
import PhpPrefixer.Pattern.Reader

/-!
# Exclusion patterns

A pattern is a regular expression, plain or between delimiters with flags behind it. Text that only
looks delimited (no second delimiter, or something else than flags behind it) is a plain expression.

How patterns are read is a `Dialect`. The standard dialect knows no names of characters; all that is used
of a dialect is that it reads a text in one way, and keeps the text.
-/

namespace PhpPrefixer

/-- A pattern that could be read. -/
structure Pattern where
  /-- The pattern as it was written. -/
  written : Text
  /-- The expression without delimiters. -/
  source : Text
  /-- The flags in force. -/
  flags : Flags
  /-- The expression itself. -/
  regex : Regex

/-- A pattern that could not be read. -/
structure PatternError where
  /-- The pattern as it was written. -/
  written : Text
  /-- The expression without delimiters. -/
  source : Text
  /-- What is wrong, and where. -/
  error : RegexError

namespace PatternError

/-- Where an error is, in words; with line and column when the expression has several lines. -/
def place (e : PatternError) : String :=
  match e.error.position with
  | none => ""
  | some position =>
    let shown := " at position " ++ toString position
    if e.source.contains '\n' then
      let read := e.source.take position
      let line := read.count '\n' + 1
      let column := (read.reverse.takeWhile (· ≠ '\n')).length + 1
      shown ++ " (line " ++ toString line ++ ", column " ++ toString column ++ ")"
    else shown

/-- The wording of an error. -/
def message (e : PatternError) : String :=
  if e.error.fault.isBare then e.error.fault.message
  else
    "Invalid whitelist pattern " ++ String.ofList (Text.quoted e.written) ++ ": "
      ++ e.error.fault.message ++ e.place

end PatternError

namespace Pattern

/-- The characters that may delimit an expression. -/
def delimiters : List Char := ['/', '#', '~', '!', '@', '%']

/-- The flags behind a delimiter; `u` is allowed and says nothing new. -/
def trailingFlags? : Text → Option Flags
  | [] => some {}
  | c :: cs => do
    let flag ← if c = 'u' then some {} else Flags.ofLetter? c
    return flag.union (← trailingFlags? cs)

/-- The expression and the flags between and behind delimiters, if there are any. -/
def undelimited? (written : Text) : Option (Text × Flags) :=
  match written with
  | [] => none
  | delimiter :: rest =>
    if written.length > 2 && delimiters.contains delimiter && rest.contains delimiter then do
      let trailing := (rest.reverse.takeWhile (· ≠ delimiter)).reverse
      let flags ← trailingFlags? trailing
      return (rest.take (rest.length - trailing.length - 1), flags)
    else none

/-- The pattern written in a text. A character may be written with the name that it has by `named`. -/
def read (written : Text) (named : Text → Option Char := fun _ => none) :
    Except PatternError Pattern :=
  let (source, flags) := (undelimited? written).getD (written, {})
  match Regex.read flags source named with
  | .ok (regex, flags) => .ok ⟨written, source, flags, regex⟩
  | .error error => .error ⟨written, source, error⟩

/-- Whether a pattern is found in a text. -/
def found (p : Pattern) (t : Text) : Bool := p.regex.found p.flags t

/-- A pattern remembers how it was written. -/
theorem written_of_read {t : Text} {named : Text → Option Char} {p : Pattern}
    (h : read t named = .ok p) : p.written = t := by
  unfold read at h
  dsimp only at h
  split at h
  · cases h
    rfl
  · cases h

end Pattern

/-- A way to read patterns. -/
structure Dialect where
  /-- The pattern written in a text. -/
  read : Text → Except PatternError Pattern
  /-- A pattern keeps the text that it was written in. -/
  written_of_read : ∀ t p, read t = .ok p → p.written = t

namespace Dialect

/-- The dialect in which a character may be written with the name that it has by `named`. -/
def naming (named : Text → Option Char) : Dialect :=
  ⟨fun t => Pattern.read t named, fun _ _ => Pattern.written_of_read⟩

/-- The dialect without names of characters. -/
def standard : Dialect := naming fun _ => none

end Dialect

end PhpPrefixer
