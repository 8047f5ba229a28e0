import PhpPrefixer.Text.CharRange
import PhpPrefixer.Text.CaseTable

/-!
# Lower case

Lower-casing is that of the Unicode standard: every character has its own lower-case form, the
dotted capital I becomes two characters, and a capital sigma at the end of a word becomes the
final form of the letter. A sigma ends a word when a letter with case stands before it and none
after it; marks in between do not count.
-/

namespace PhpPrefixer.Text

/-- The lower-case form of a code point, given by runs `(first, last, stride, target)`. -/
def lowerIn (runs : List (Nat × Nat × Nat × Nat)) (n : Nat) : Nat :=
  match runs.find? fun (first, last, stride, _) =>
      first ≤ n && n ≤ last && (n - first) % stride = 0 with
  | some (first, _, _, target) => target + (n - first)
  | none => n

/-- The lower-case form of one character, as one character. -/
def lowerChar (c : Char) : Char :=
  if isAscii c then c.toLower
  else if c.toNat = 0x130 then 'i'
  else Char.ofNat (lowerIn lowerRuns c.toNat)

/-- The lower-case form of one character away from any context. -/
def lowerForm (c : Char) : Text :=
  if c.toNat = 0x130 then ['i', Char.ofNat 0x307] else [lowerChar c]

/-- Whether a character is a letter with case. -/
def isCased (c : Char) : Bool :=
  if isAscii c then c.isAlpha else inRanges casedRanges c

/-- Whether a character is passed over when the neighbours of a sigma are looked at. -/
def isCaseIgnorable (c : Char) : Bool :=
  if isAscii c then ['\'', '.', ':', '^', '\x60'].contains c else inRanges ignorableRanges c

/-- Whether a letter with case comes next, marks passed over. -/
def casedNext (t : Text) : Bool :=
  match t.dropWhile isCaseIgnorable with
  | [] => false
  | c :: _ => isCased c

/-- Lower-casing of the rest of a text; `afterCased` tells whether the last character before it,
marks passed over, is a letter with case. -/
def lowerFrom (afterCased : Bool) : Text → Text
  | [] => []
  | c :: cs =>
    let form :=
      if c.toNat = 0x3A3 then
        [Char.ofNat (if afterCased && !casedNext cs then 0x3C2 else 0x3C3)]
      else lowerForm c
    form ++ lowerFrom (if isCaseIgnorable c then afterCased else isCased c) cs

/-- The lower-case form of a text. -/
def lower (t : Text) : Text := lowerFrom false t

/-- The empty text is in lower case. -/
@[simp] theorem lower_nil : lower [] = [] := rfl

end PhpPrefixer.Text
