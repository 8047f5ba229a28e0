import PhpPrefixer.Pattern.Regex
import PhpPrefixer.Text.Case
import PhpPrefixer.Text.Identifier

/-!
# Matching

An expression takes a cursor in a text to the cursors at which it may end, in order of preference.
The first of them is where a backtracking matcher ends; a text is found to match when some cursor of
it has an end at all. Cursors that occur twice are kept once, so the lists stay short.

A repetition goes on only after an iteration that consumed something: after an empty iteration the
rest of the expression is next. This bounds every loop by the length of the text.
-/

namespace PhpPrefixer

/-- A place in a text, with what the groups have captured. -/
structure Cursor where
  /-- The characters before the place, the nearest first. -/
  before : Text
  /-- The characters after the place. -/
  after : Text
  /-- The captured texts, by the numbers of their groups. -/
  groups : List (Nat × Text)
  deriving DecidableEq, Repr

namespace Cursor

/-- The cursor at the start of a text. -/
def ofText (t : Text) : Cursor := ⟨[], t, []⟩

/-- One character further, if the next character passes the test. -/
def step (k : Cursor) (test : Char → Bool) : List Cursor :=
  match k.after with
  | [] => []
  | c :: cs => if test c then [{ k with before := c :: k.before, after := cs }] else []

/-- What a group captured, if it took part in the match. -/
def captured? (k : Cursor) (number : Nat) : Option Text :=
  (k.groups.find? fun g => g.1 = number).map (·.2)

/-- The cursor with the text read since `start` captured under a number. -/
def capture (k start : Cursor) (number : Nat) : Cursor :=
  let text := (k.before.take (k.before.length - start.before.length)).reverse
  { k with groups := (number, text) :: k.groups.filter fun g => g.1 ≠ number }

/-- The cursor some characters before, if there are so many. -/
def back? (k : Cursor) (length : Nat) : Option Cursor :=
  if length ≤ k.before.length then
    some { k with
      before := k.before.drop length, after := (k.before.take length).reverse ++ k.after }
  else none

/-- All cursors of a text from this one on. -/
def onward (k : Cursor) : Text → List Cursor
  | [] => [k]
  | c :: cs => k :: onward { k with before := c :: k.before, after := cs } cs

end Cursor

namespace Matching

/-- Letters that are the same whatever their case, though their lower-case forms differ. -/
def caseVariants : List (List Nat) :=
  [[0x69, 0x131], [0x73, 0x17F], [0xB5, 0x3BC], [0x345, 0x3B9, 0x1FBE], [0x390, 0x1FD3],
   [0x3B0, 0x1FE3], [0x3B2, 0x3D0], [0x3B5, 0x3F5], [0x3B8, 0x3D1], [0x3BA, 0x3F0],
   [0x3C0, 0x3D6], [0x3C1, 0x3F1], [0x3C2, 0x3C3], [0x3C6, 0x3D5], [0x432, 0x1C80],
   [0x434, 0x1C81], [0x43E, 0x1C82], [0x441, 0x1C83], [0x442, 0x1C84, 0x1C85], [0x44A, 0x1C86],
   [0x463, 0x1C87], [0x1C88, 0xA64B], [0x1E61, 0x1E9B], [0xFB05, 0xFB06]]

/-- The code point of the lower-case form of a character, where ASCII may be all that has one. -/
def lowerCode (flags : Flags) (code : Nat) : Nat :=
  if flags.ascii then if 65 ≤ code && code ≤ 90 then code + 32 else code
  else if code.isValidChar then (Text.lowerChar (Char.ofNat code)).toNat
  else code

/-- The lower-case letters that stand for the same letter as the lower-case form of a character. -/
def lowerVariants (flags : Flags) (code : Nat) : List Nat :=
  let n := lowerCode flags code
  if flags.ascii then [n] else (caseVariants.find? (·.contains n)).getD [n]

/-- The code points whose lower-case form is `n`. -/
def raised (flags : Flags) (n : Nat) : List Nat :=
  (if 97 ≤ n && n ≤ 122 then [n - 32] else [])
    ++ if flags.ascii then []
      else (if n = 0x69 then [0x130] else [])
        ++ Text.lowerRuns.filterMap fun (first, last, stride, target) =>
            if target ≤ n && n - target ≤ last - first && (n - target) % stride = 0 then
              some (first + (n - target))
            else none

/-- The code points of all letters that are the same as `c` whatever their case. -/
def sameLetters (flags : Flags) (c : Char) : List Nat :=
  (lowerVariants flags c.toNat).flatMap fun n => n :: raised flags n

/-- Whether a character of the text is the one asked for. -/
def sameChar (flags : Flags) (wanted : Nat) (found : Char) : Bool :=
  if flags.ignoreCase then (lowerVariants flags wanted).contains (lowerCode flags found.toNat)
  else wanted = found.toNat

/-- Whether a character belongs to a named class. -/
def inClass (flags : Flags) (cls : CharClass) (c : Char) : Bool :=
  (!flags.ascii || Text.isAscii c) &&
    match cls with
    | .digit => Text.isDigit c
    | .word => Text.isWord c
    | .blank => if flags.ascii then Text.isSpacing c else Text.isBlank c

/-- Whether a character is one of those a member of a set stands for. -/
def inItem (flags : Flags) (c : Char) : SetItem → Bool
  | .char wanted => sameChar flags wanted c
  | .range first last =>
    if flags.ignoreCase then
      (sameLetters flags c).any fun n => first ≤ n && n ≤ last
    else first ≤ c.toNat && c.toNat ≤ last
  | .cls cls negated => inClass flags cls c != negated

/-- Whether a word character comes first. -/
def wordFirst (flags : Flags) : Text → Bool
  | [] => false
  | c :: _ => inClass flags .word c

/-- Whether an anchor holds at a cursor. -/
def holds (flags : Flags) (k : Cursor) : Anchor → Bool
  | .textStart => k.before = []
  | .textEnd => k.after = []
  | .lineStart => k.before = [] || (flags.multiline && k.before.head? = some '\n')
  | .lineEnd =>
    k.after = [] || k.after = ['\n'] || (flags.multiline && k.after.head? = some '\n')
  | .boundary =>
    !(k.before = [] && k.after = []) && wordFirst flags k.before != wordFirst flags k.after
  | .noBoundary =>
    !(k.before = [] && k.after = []) && wordFirst flags k.before == wordFirst flags k.after

/-- The ends after each of the cursors in turn, each end once. -/
def through (next : Cursor → List Cursor) (ks : List Cursor) : List Cursor :=
  (ks.flatMap next).eraseDups

/-- The ends after exactly `count` iterations. -/
def exactly (next : Cursor → List Cursor) : (count : Nat) → List Cursor → List Cursor
  | 0, ks => ks
  | count + 1, ks => exactly next count (through next ks)

/-- The ends after up to `rounds` further iterations. -/
def upTo (reluctant : Bool) (next : Cursor → List Cursor) : (rounds : Nat) → Cursor → List Cursor
  | 0, k => [k]
  | rounds + 1, k =>
    let onwards := (next k).flatMap fun k' =>
      if k'.after.length < k.after.length then upTo reluctant next rounds k' else [k']
    (if reluctant then k :: onwards else onwards ++ [k]).eraseDups

/-- The end after up to `rounds` further iterations, each taken as it matches first. -/
def onlyUpTo (next : Cursor → List Cursor) : (rounds : Nat) → Cursor → Cursor
  | 0, k => k
  | rounds + 1, k =>
    match next k with
    | [] => k
    | k' :: _ => if k'.after.length < k.after.length then onlyUpTo next rounds k' else k'

/-- The most rounds a repetition can make at a cursor after its least number. -/
def roundsAt (least : Nat) (most : Option Nat) (k : Cursor) : Nat :=
  match most with
  | none => k.after.length + 1
  | some most => min (most - least) (k.after.length + 1)

/-- The ends of a repetition. -/
def repetition (next : Cursor → List Cursor) (least : Nat) (most : Option Nat) :
    Eagerness → Cursor → List Cursor
  | .greedy, k => through (fun k' => upTo false next (roundsAt least most k') k')
      (exactly next least [k])
  | .reluctant, k => through (fun k' => upTo true next (roundsAt least most k') k')
      (exactly next least [k])
  | .possessive, k =>
    (exactly (fun k' => (next k').take 1) least [k]).map fun k' =>
      onlyUpTo next (roundsAt least most k') k'

/-- The cursor after a text, if the text comes next. -/
def spelled (flags : Flags) : Text → Cursor → List Cursor
  | [], k => [k]
  | c :: cs, k =>
    (k.step fun d =>
      if flags.ignoreCase then lowerCode flags c.toNat = lowerCode flags d.toNat else c = d).flatMap
        (spelled flags cs)

/-- The cursor after a look at what has the given ends, which is where it was before. -/
def looked (positive : Bool) (k : Cursor) : List Cursor → List Cursor
  | [] => if positive then [] else [k]
  | k' :: _ => if positive then [{ k with groups := k'.groups }] else []

end Matching

open Matching in
/-- The ends of an expression at a cursor, in order of preference. -/
def Regex.ends (flags : Flags) : Regex → Cursor → List Cursor
  | .empty, k => [k]
  | .char c, k => k.step (sameChar flags c)
  | .any, k => k.step fun c => flags.dotAll || c ≠ '\n'
  | .set negated items, k => k.step fun c => items.any (inItem flags c) != negated
  | .anchor place, k => if holds flags k place then [k] else []
  | .seq first second, k => through (second.ends flags) (first.ends flags k)
  | .alt first second, k => (first.ends flags k ++ second.ends flags k).eraseDups
  | .many least most eagerness body, k =>
    repetition (body.ends flags) least most eagerness k
  | .group none body, k => body.ends flags k
  | .group (some number) body, k => (body.ends flags k).map fun k' => k'.capture k number
  | .flagged on off body, k => body.ends (flags.inside on off) k
  | .ahead positive body, k => looked positive k (body.ends flags k)
  | .behind positive length body, k =>
    looked positive k ((k.back? length).elim [] (body.ends flags))
  | .atomic body, k => (body.ends flags k).take 1
  | .backref number, k =>
    match k.captured? number with
    | none => []
    | some text => spelled flags text k
  | .ifGroup number yes no, k =>
    if (k.captured? number).isSome then yes.ends flags k else no.ends flags k

/-- Whether an expression matches somewhere in a text. -/
def Regex.found (r : Regex) (flags : Flags) (t : Text) : Bool :=
  ((Cursor.ofText t).onward t).any fun k => r.ends flags k ≠ []

end PhpPrefixer
