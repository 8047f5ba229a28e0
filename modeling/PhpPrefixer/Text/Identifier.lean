import PhpPrefixer.Text.Blank
import PhpPrefixer.Text.IdentifierTable
import PhpPrefixer.Text.Word

/-!
# Letters, identifiers and numbers

Letters are the word characters that are neither numbers nor the underscore. An identifier starts with a
letter or an underscore, or with one of a few further characters, and goes on with these, with digits and
with marks. A whole number is written in the decimal digits of any script.
-/

namespace PhpPrefixer.Text

/-- Whether a character is a letter. -/
def isLetter (c : Char) : Bool :=
  if isAscii c then c.isAlpha else isWord c && !inRanges numeralRanges c

/-- Whether a character may start an identifier. -/
def startsIdentifier (c : Char) : Bool :=
  c = '_' || (isLetter c && !inRanges unstartingRanges c) || inRanges startingRanges c

/-- Whether a character may stand in an identifier. -/
def continuesIdentifier (c : Char) : Bool :=
  startsIdentifier c || (if isAscii c then c.isDigit else inRanges continuingRanges c)

/-- Whether a text is an identifier. -/
def isIdentifier : Text → Bool
  | [] => false
  | c :: cs => startsIdentifier c && cs.all continuesIdentifier

/-- The value of a decimal digit. The digits of a script follow one another from zero to nine. -/
def digitValue? (c : Char) : Option Nat :=
  if isAscii c then if c.isDigit then some (c.toNat - '0'.toNat) else none
  else
    (digitRanges.find? fun (first, last) => first ≤ c.toNat && c.toNat ≤ last).map
      fun (first, _) => (c.toNat - first) % 10

/-- The greatest number of digits that are read. -/
def mostDigits : Nat := 4300

/-- The digits of a number that is written with an underscore between some of them. -/
def digitsOf? : Text → Option (List Nat)
  | [] => none
  | [c] => (digitValue? c).map ([·])
  | c :: '_' :: cs => do return (← digitValue? c) :: (← digitsOf? cs)
  | c :: cs => do return (← digitValue? c) :: (← digitsOf? cs)

/-- The whole number that is written in a text, with or without a sign and with blanks around it. -/
def integer? (t : Text) : Option Int := do
  let value (digits : Text) : Option Nat := do
    let ds ← digitsOf? digits
    if mostDigits < ds.length then none else return ds.foldl (fun n d => 10 * n + d) 0
  match trim isSpacing t with
  | '+' :: digits => (value digits).map Int.ofNat
  | '-' :: digits => (value digits).map fun n => -Int.ofNat n
  | digits => (value digits).map Int.ofNat

end PhpPrefixer.Text
