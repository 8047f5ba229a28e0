import PhpPrefixer.Text.CharRange
import PhpPrefixer.Text.WordTable

/-!
# Word characters and digits

A word character is a letter, a digit or a number of any script, or an underscore. A digit is a
decimal digit of any script.
-/

namespace PhpPrefixer.Text

/-- Whether a character may stand in a word. -/
def isWord (c : Char) : Bool :=
  if isAscii c then c.isAlphanum || c = '_' else inRanges wordRanges c

/-- Whether a character is a decimal digit. -/
def isDigit (c : Char) : Bool :=
  if isAscii c then c.isDigit else inRanges digitRanges c

end PhpPrefixer.Text
