import PhpPrefixer.Text

/-!
# Regular expressions

The expressions an exclusion rule may use: characters, classes and sets, anchors, sequences and
alternatives, bounded and unbounded repetition in three degrees of eagerness, groups that capture,
back-references to them and choices that depend on them, groups with flags of their own, look-ahead and
look-behind, and groups that are not entered again.

Characters are given by their code points. An expression may also ask for a code point that no character
has; it is found in no text.
-/

namespace PhpPrefixer

/-- Flags under which an expression is read and matched. -/
structure Flags where
  /-- Letters match whatever their case. -/
  ignoreCase : Bool := false
  /-- The line anchors hold at every line break. -/
  multiline : Bool := false
  /-- The point matches a line break too. -/
  dotAll : Bool := false
  /-- Blanks and comments in the expression are skipped. -/
  verbose : Bool := false
  /-- Classes and letter case are those of ASCII. -/
  ascii : Bool := false
  /-- Classes and letter case are those of Unicode, as they are without this flag. -/
  unicode : Bool := false
  /-- No repetition is allowed. -/
  template : Bool := false
  deriving DecidableEq, Repr

namespace Flags

/-- The flag written with a letter. -/
def ofLetter? : Char → Option Flags
  | 'i' => some { ignoreCase := true }
  | 'm' => some { multiline := true }
  | 's' => some { dotAll := true }
  | 'x' => some { verbose := true }
  | _ => none

/-- The flag written with a letter inside an expression. The letter for the rules of a place is known, and
says nothing. -/
def ofInlineLetter? : Char → Option Flags
  | 'a' => some { ascii := true }
  | 'u' => some { unicode := true }
  | 't' => some { template := true }
  | 'L' => some {}
  | c => ofLetter? c

/-- The flags of both. -/
def union (a b : Flags) : Flags where
  ignoreCase := a.ignoreCase || b.ignoreCase
  multiline := a.multiline || b.multiline
  dotAll := a.dotAll || b.dotAll
  verbose := a.verbose || b.verbose
  ascii := a.ascii || b.ascii
  unicode := a.unicode || b.unicode
  template := a.template || b.template

/-- The flags of `a` that are not in `b`. -/
def without (a b : Flags) : Flags where
  ignoreCase := a.ignoreCase && !b.ignoreCase
  multiline := a.multiline && !b.multiline
  dotAll := a.dotAll && !b.dotAll
  verbose := a.verbose && !b.verbose
  ascii := a.ascii && !b.ascii
  unicode := a.unicode && !b.unicode
  template := a.template && !b.template

/-- The flags inside a group that switches some on and some off. If it chooses between ASCII and Unicode,
the choice made outside does not count. -/
def inside (outer on off : Flags) : Flags :=
  let kept := if on.ascii || on.unicode then { outer with ascii := false, unicode := false } else outer
  (kept.union on).without off

/-- The letters of the flags that are set, in the order `i`, `m`, `s`, `x`. -/
def letters (f : Flags) : Text :=
  (if f.ignoreCase then ['i'] else []) ++ (if f.multiline then ['m'] else [])
    ++ (if f.dotAll then ['s'] else []) ++ (if f.verbose then ['x'] else [])

end Flags

/-- A named class of characters. -/
inductive CharClass where
  /-- Decimal digits. -/
  | digit
  /-- Letters, digits, numbers and the underscore. -/
  | word
  /-- White space. -/
  | blank
  deriving DecidableEq, Repr

/-- One member of a set of characters. -/
inductive SetItem where
  /-- A single character. -/
  | char (code : Nat)
  /-- All characters from one to another. -/
  | range (first last : Nat)
  /-- A named class, or its complement. -/
  | cls (cls : CharClass) (negated : Bool)
  deriving DecidableEq, Repr

/-- A place in the text, matched without consuming anything. -/
inductive Anchor where
  /-- The start of the text, or of a line. -/
  | lineStart
  /-- The end of the text, the place before a line break at its end, or the end of a line. -/
  | lineEnd
  /-- The start of the text. -/
  | textStart
  /-- The end of the text. -/
  | textEnd
  /-- A place between a word character and another one. -/
  | boundary
  /-- A place that is no boundary. -/
  | noBoundary
  deriving DecidableEq, Repr

/-- How eagerly a repetition goes on. -/
inductive Eagerness where
  /-- As often as possible, fewer times if the rest asks for it. -/
  | greedy
  /-- As rarely as possible, more times if the rest asks for it. -/
  | reluctant
  /-- As often as possible, and never fewer times. -/
  | possessive
  deriving DecidableEq, Repr

/-- A regular expression. -/
inductive Regex where
  /-- The empty text. -/
  | empty
  /-- One given character. -/
  | char (code : Nat)
  /-- Any character; a line break only under the flag for it. -/
  | any
  /-- One character of a set, or outside it. -/
  | set (negated : Bool) (items : List SetItem)
  /-- A place. -/
  | anchor (place : Anchor)
  /-- One expression after the other. -/
  | seq (first second : Regex)
  /-- Either expression, the first one preferred. -/
  | alt (first second : Regex)
  /-- At least `least` and at most `most` times the body. -/
  | many (least : Nat) (most : Option Nat) (eagerness : Eagerness) (body : Regex)
  /-- A group, with the number it captures under. -/
  | group (number : Option Nat) (body : Regex)
  /-- A group with flags switched on and off inside. -/
  | flagged (on off : Flags) (body : Regex)
  /-- Holds where the body would match, or where it would not. -/
  | ahead (positive : Bool) (body : Regex)
  /-- Holds where the body would match if it started some characters before, or where it would not. -/
  | behind (positive : Bool) (length : Nat) (body : Regex)
  /-- The body as it matches first. -/
  | atomic (body : Regex)
  /-- The text captured by a group. -/
  | backref (number : Nat)
  /-- The first expression if a group has captured something, else the second. -/
  | ifGroup (number : Nat) (yes no : Regex)
  deriving Repr

/-- How many characters an expression can match. -/
structure Width where
  /-- At least so many. -/
  least : Nat
  /-- At most so many, if there is a bound. -/
  most : Option Nat
  deriving DecidableEq, Repr

namespace Width

/-- The width of nothing. -/
def zero : Width := ⟨0, some 0⟩

/-- The width of one character. -/
def one : Width := ⟨1, some 1⟩

/-- The width of one thing after another. -/
def plus (a b : Width) : Width := ⟨a.least + b.least, do return (← a.most) + (← b.most)⟩

/-- The width of one thing or another. -/
def either (a b : Width) : Width := ⟨min a.least b.least, do return max (← a.most) (← b.most)⟩

/-- The width of a repetition. -/
def times (w : Width) (least : Nat) (most : Option Nat) : Width :=
  ⟨w.least * least,
    if w.most = some 0 || most = some 0 then some 0 else do return (← w.most) * (← most)⟩

end Width

namespace Regex

/-- Whether an expression is a place. -/
def isAnchor : Regex → Bool
  | anchor _ => true
  | _ => false

/-- Whether an expression is a repetition. -/
def isMany : Regex → Bool
  | many .. => true
  | _ => false

/-- The width of an expression, if these are the widths of the groups it may refer to. -/
def width (groups : List (Nat × Width)) : Regex → Width
  | empty => .zero
  | char _ => .one
  | any => .one
  | set _ _ => .one
  | anchor _ => .zero
  | seq first second => (first.width groups).plus (second.width groups)
  | alt first second => (first.width groups).either (second.width groups)
  | many least most _ body => (body.width groups).times least most
  | group _ body => body.width groups
  | flagged _ _ body => body.width groups
  | ahead _ _ => .zero
  | behind _ _ _ => .zero
  | atomic body => body.width groups
  | backref number => (groups.lookup number).getD .zero
  | ifGroup _ yes no => (yes.width groups).either (no.width groups)

/-- The expressions one after the other. -/
def sequence : List Regex → Regex
  | [] => empty
  | [r] => r
  | r :: rs => seq r (sequence rs)

/-- The expressions as alternatives. -/
def choice : List Regex → Regex
  | [] => empty
  | [r] => r
  | r :: rs => alt r (choice rs)

end Regex

end PhpPrefixer
