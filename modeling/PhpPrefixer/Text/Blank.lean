import PhpPrefixer.Text.CharRange

/-!
# Blank characters

White space in the Unicode sense, together with the four information separators U+001C to U+001F.
The zero-width space and the byte-order mark are not blank.
-/

namespace PhpPrefixer.Text

/-- The blank code points, as closed ranges in increasing order. -/
def blankRanges : List (Nat × Nat) :=
  [(9, 13), (28, 32), (133, 133), (160, 160), (5760, 5760), (8192, 8202), (8232, 8233),
   (8239, 8239), (8287, 8287), (12288, 12288)]

/-- Whether a character is white space. -/
def isBlank (c : Char) : Bool := inRanges blankRanges c

/-- Whether a character is white space and no information separator. -/
def isSpacing (c : Char) : Bool := isBlank c && !(28 ≤ c.toNat && c.toNat ≤ 31)

/-- The text without the blanks in front. -/
def trimBlankStart (t : Text) : Text := t.dropWhile isBlank

/-- The text without the blanks around it. -/
def trimBlank (t : Text) : Text := trim isBlank t

/-- The maximal runs of characters that are not blank, with the run being read in front. -/
def wordsFrom (current : Text) : Text → List Text
  | [] => if current = [] then [] else [current.reverse]
  | c :: cs =>
    if isBlank c then
      if current = [] then wordsFrom [] cs else current.reverse :: wordsFrom [] cs
    else wordsFrom (c :: current) cs

/-- The words of a text: its maximal runs of characters that are not blank. -/
def words (t : Text) : List Text := wordsFrom [] t

end PhpPrefixer.Text
