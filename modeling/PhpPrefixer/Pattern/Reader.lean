import PhpPrefixer.Pattern.Fault
import PhpPrefixer.Text.Identifier

/-!
# Reading regular expressions

An expression is cut into tokens, a character or a backslash with the character after it, and read
from left to right. Open groups are kept on a stack, so one step reads at least one token and the
reading ends after as many steps as there are tokens. A fault is reported with its position in the
expression, counted in characters.

A backslash at the very end is noticed as soon as the token before it is taken, and then wins over
every other fault found there. Some faults are found only when the whole expression has been read: a
reference to a group that never came, and a look-behind that may match texts of different lengths.

A character may be given by its name. Which names there are is left open: they come from outside.
-/

namespace PhpPrefixer

namespace RegexReader

/-- What a token is made of. -/
inductive Glyph where
  /-- A character that stands for itself. -/
  | plain (c : Char)
  /-- A character after a backslash. -/
  | escaped (c : Char)
  /-- A backslash at the end of the expression. -/
  | dangling
  deriving DecidableEq, Repr

/-- A token with its position. -/
structure Token where
  /-- What it is made of. -/
  glyph : Glyph
  /-- The position of its first character. -/
  position : Nat
  deriving DecidableEq, Repr

/-- The characters of a token. -/
def Token.text (t : Token) : Text :=
  match t.glyph with
  | .plain c => [c]
  | .escaped c => ['\\', c]
  | .dangling => ['\\']

/-- Whether a token is the given character, not escaped. -/
def Token.is (t : Token) (c : Char) : Bool := t.glyph = .plain c

/-- The tokens of an expression, the first of them at `position`. -/
def tokens (position : Nat) : Text → List Token
  | [] => []
  | [c] => [⟨if c = '\\' then .dangling else .plain c, position⟩]
  | c :: d :: rest =>
    if c = '\\' then ⟨.escaped d, position⟩ :: tokens (position + 2) rest
    else ⟨.plain c, position⟩ :: tokens (position + 1) (d :: rest)

/-- What an open group will become. -/
inductive Role where
  /-- The whole expression. -/
  | whole
  /-- A group that may capture. -/
  | group (number : Option Nat)
  /-- A group with flags of its own. -/
  | flagged (on off : Flags)
  /-- A look-ahead. -/
  | ahead (positive : Bool)
  /-- A look-behind, with the number of capturing groups that were opened before it. -/
  | behind (positive : Bool) (groups : Nat)
  /-- A group that is not entered again. -/
  | atomic
  /-- A choice that depends on a group. -/
  | ifGroup (number : Nat)
  deriving DecidableEq, Repr

/-- An open group and what has been read of it. -/
structure Frame where
  /-- The position of its parenthesis. -/
  start : Nat
  /-- What it will become. -/
  role : Role
  /-- Whether blanks and comments are skipped inside it. -/
  verbose : Bool
  /-- The finished alternatives, the latest first. -/
  branches : List Regex
  /-- The items of the alternative being read, the latest first. -/
  items : List Regex

/-- What stands inside a frame. -/
def Frame.body (f : Frame) : Regex :=
  Regex.choice ((Regex.sequence f.items.reverse :: f.branches).reverse)

/-- The expression a frame has become, if these are the widths of the groups that are closed. -/
def Frame.regex (closed : List (Nat × Width)) (f : Frame) : Regex :=
  match f.role with
  | .whole => f.body
  | .group number => .group number f.body
  | .flagged on off => .flagged on off f.body
  | .ahead positive => .ahead positive f.body
  | .behind positive _ => .behind positive (f.body.width closed).least f.body
  | .atomic => .atomic f.body
  | .ifGroup number =>
    match f.branches with
    | [] => .ifGroup number f.body .empty
    | yes :: _ => .ifGroup number yes (Regex.sequence f.items.reverse)

/-- The state of the reading. -/
structure State where
  /-- The number of characters of the expression. -/
  length : Nat
  /-- What is still to be read. -/
  rest : List Token
  /-- The flags of the whole expression. -/
  flags : Flags
  /-- The number of groups opened so far that capture. -/
  groups : Nat
  /-- The capturing groups that are closed, with their widths. -/
  closed : List (Nat × Width)
  /-- The names of groups, with their numbers. -/
  names : List (Text × Nat)
  /-- The groups on which choices depend, with the positions of the choices. -/
  asked : List (Nat × Nat)
  /-- The innermost open group. -/
  frame : Frame
  /-- The groups around it, from the inside out. -/
  outer : List Frame

/-- The state with one more item. -/
def State.push (s : State) (item : Regex) (rest : List Token) : State :=
  { s with rest := rest, frame := { s.frame with items := item :: s.frame.items } }

/-- The position of the next token. -/
def positionOf (length : Nat) : List Token → Nat
  | [] => length
  | t :: _ => t.position

/-- A fault at a position. -/
def fail {α : Type} (fault : RegexFault) (position : Nat) : Except RegexError α :=
  .error ⟨fault, some position⟩

/-- Going on to `rest`, unless a backslash at the end is next. -/
def goOn (rest : List Token) : Except RegexError (List Token) :=
  match rest with
  | ⟨.dangling, position⟩ :: _ => fail .escapeAtEnd position
  | _ => .ok rest

/-- Taking a token if it is the given character. -/
def accept (c : Char) : List Token → Except RegexError (Option (List Token))
  | [] => .ok none
  | t :: rest => if t.is c then (goOn rest).map some else .ok none

/-- The text up to a character that ends it, and what follows. It is a name of the given sort, and some of
it has been read. -/
def upTo (length : Nat) (stop : Char) (sort : String) (read : Text) :
    List Token → Except RegexError (Text × List Token)
  | [] =>
    if read = [] then fail (.missingName sort) length
    else fail (.unterminatedName stop) (length - read.length)
  | t :: rest => do
    let _ ← goOn rest
    if t.is stop then
      if read = [] then fail (.missingName sort) t.position else return (read, rest)
    else upTo length stop sort (read ++ t.text) rest

/-- The class an escaped letter stands for. -/
def classOf? : Char → Option SetItem
  | 'd' => some (.cls .digit false)
  | 'D' => some (.cls .digit true)
  | 'w' => some (.cls .word false)
  | 'W' => some (.cls .word true)
  | 's' => some (.cls .blank false)
  | 'S' => some (.cls .blank true)
  | _ => none

/-- The control character an escaped letter stands for. -/
def controlOf? : Char → Option Char
  | 'a' => some '\x07'
  | 'f' => some '\x0c'
  | 'n' => some '\n'
  | 'r' => some '\r'
  | 't' => some '\t'
  | 'v' => some '\x0b'
  | _ => none

/-- The anchor an escaped letter stands for. -/
def anchorOf? : Char → Option Anchor
  | 'A' => some .textStart
  | 'Z' => some .textEnd
  | 'b' => some .boundary
  | 'B' => some .noBoundary
  | _ => none

/-- The longest run of at most `limit` characters that pass a test, and what follows it. -/
def runOf (test : Char → Bool) : (limit : Nat) → List Token → Except RegexError (Text × List Token)
  | 0, rest => .ok ([], rest)
  | _, [] => .ok ([], [])
  | limit + 1, t :: rest =>
    match t.glyph with
    | .plain c =>
      if test c then do
        let _ ← goOn rest
        let (more, rest) ← runOf test limit rest
        return (c :: more, rest)
      else .ok ([], t :: rest)
    | _ => .ok ([], t :: rest)

/-- The longest run of digits and what follows it. -/
def digits (rest : List Token) : Except RegexError (Text × List Token) :=
  runOf Char.isDigit rest.length rest

/-- Whether a character is an octal digit. -/
def isOctal (c : Char) : Bool := '0' ≤ c && c ≤ '7'

/-- Whether a character is a hexadecimal digit. -/
def isHex (c : Char) : Bool := c.isDigit || ('a' ≤ c && c ≤ 'f') || ('A' ≤ c && c ≤ 'F')

/-- The value of a digit. -/
def digitValue (c : Char) : Nat :=
  if c.isDigit then c.toNat - '0'.toNat
  else if 'a' ≤ c then c.toNat - 'a'.toNat + 10
  else c.toNat - 'A'.toNat + 10

/-- The number written with these digits in a base. -/
def numberIn (base : Nat) (ds : Text) : Nat := ds.foldl (fun n c => base * n + digitValue c) 0

/-- The number written with these decimal digits. -/
def number (ds : Text) : Nat := numberIn 10 ds

/-- The number of hexadecimal digits that follow an escaped letter. -/
def hexWidth? : Char → Option Nat
  | 'x' => some 2
  | 'u' => some 4
  | 'U' => some 8
  | _ => none

/-- The code point with a hexadecimal number of a fixed width, after the escaped letter `c`. -/
def hexChar (position : Nat) (c : Char) (width : Nat) (rest : List Token) :
    Except RegexError (Nat × List Token) := do
  let (ds, rest) ← runOf isHex width rest
  let code := numberIn 16 ds
  if ds.length ≠ width then fail (.incompleteEscape ('\\' :: c :: ds)) position
  else if 0x10FFFF < code then fail (.badEscape ('\\' :: c :: ds)) position
  else return (code, rest)

/-- The code point with an octal number, which has been read. -/
def octalChar (position : Nat) (ds : Text) : Except RegexError Nat :=
  if 0o377 < numberIn 8 ds then fail (.octalTooGreat ('\\' :: ds)) position
  else .ok (numberIn 8 ds)

/-- The character that stands for itself after a backslash; letters and digits do not. -/
def selfChar (position : Nat) (c : Char) : Except RegexError Nat :=
  if c.isAlpha || c.isDigit then fail (.badEscape ['\\', c]) position else .ok c.toNat

section Named

variable (named : Text → Option Char)

/-- The character with a name in braces, after the escaped letter for it at `position`. -/
def namedChar (length position : Nat) (rest : List Token) : Except RegexError (Nat × List Token) := do
  match ← accept '\x7b' rest with
  | none => fail .missingBrace (positionOf length rest)
  | some rest =>
    let (name, rest) ← upTo length '\x7d' "character name" [] rest
    match named name with
    | none => fail (.unknownCharacter name) position
    | some c => return (c.toNat, rest)

/-- The member of a set a token stands for, with what may follow it. -/
def setItem (length : Nat) (t : Token) (rest : List Token) :
    Except RegexError (SetItem × List Token) :=
  match t.glyph with
  | .plain c => .ok (.char c.toNat, rest)
  | .dangling => fail .escapeAtEnd t.position
  | .escaped c =>
    match classOf? c, controlOf? c, hexWidth? c with
    | some item, _, _ => .ok (item, rest)
    | _, some control, _ => .ok (.char control.toNat, rest)
    | _, _, some width => do
      let (d, rest) ← hexChar t.position c width rest
      return (.char d, rest)
    | none, none, none =>
      if c = 'b' then .ok (.char 8, rest)
      else if c = 'N' then do
        let (d, rest) ← namedChar named length t.position rest
        return (.char d, rest)
      else if isOctal c then do
        let (more, rest) ← runOf isOctal 2 rest
        return (.char (← octalChar t.position (c :: more)), rest)
      else do return (.char (← selfChar t.position c), rest)

/-- The range between two members of a set, written with two tokens that are followed by what is at
`after`. -/
def rangeItem (first last : Token) (after : Nat) (low high : SetItem) :
    Except RegexError SetItem :=
  let position := after - (first.text.length + 1 + last.text.length)
  match low, high with
  | .char lo, .char hi =>
    if hi < lo then fail (.badRange first.text last.text) position else .ok (.range lo hi)
  | _, _ => fail (.badRange first.text last.text) position

/-- The members of a set up to its closing bracket, and what follows it, in at most `steps` steps.
`start` is the position of the opening bracket and `items` holds the members read so far, the latest
first. -/
def setItems (length start : Nat) :
    (steps : Nat) → List SetItem → List Token → Except RegexError (List SetItem × List Token)
  | 0, _, _ => fail .unterminatedSet start
  | _, _, [] => fail .unterminatedSet start
  | steps + 1, items, first :: rest => do
    let _ ← goOn rest
    if first.is ']' && items ≠ [] then return (items.reverse, rest)
    let (item, rest) ← setItem named length first rest
    match ← accept '-' rest with
    | none => setItems length start steps (item :: items) rest
    | some [] => fail .unterminatedSet start
    | some (last :: rest) =>
      let _ ← goOn rest
      if last.is ']' then return ((.char '-'.toNat :: item :: items).reverse, rest)
      let (lastItem, rest) ← setItem named length last rest
      let range ← rangeItem first last (positionOf length rest) item lastItem
      setItems length start steps (range :: items) rest

/-- A set, after its opening bracket at `start`. -/
def set (length start : Nat) (rest : List Token) : Except RegexError (Regex × List Token) := do
  match ← accept '^' rest with
  | some rest =>
    let (items, rest) ← setItems named length start (rest.length + 1) [] rest
    return (.set true items, rest)
  | none =>
    let (items, rest) ← setItems named length start (rest.length + 1) [] rest
    return (.set false items, rest)

end Named

/-- The number from which on a repetition is refused. -/
def tooOften : Nat := 4294967295

/-- The bounds in braces, after the opening one; `none` when the braces are no bounds. -/
def bounds (length : Nat) (rest : List Token) :
    Except RegexError (Option ((Nat × Option Nat) × List Token)) := do
  let here := positionOf length rest
  match rest with
  | [] => pure ()
  | t :: _ => if t.is '\x7d' then return none
  let (low, rest) ← digits rest
  let (high, rest) ←
    match ← accept ',' rest with
    | some rest => digits rest
    | none => pure (low, rest)
  match ← accept '\x7d' rest with
  | none => return none
  | some rest =>
    let least := if low = [] then 0 else number low
    let most := if high = [] then none else some (number high)
    if tooOften ≤ least then throw ⟨.repetitionTooGreat, none⟩
    match most with
    | some most =>
      if tooOften ≤ most then throw ⟨.repetitionTooGreat, none⟩
      if most < least then fail .leastAboveMost here
    | none => pure ()
    return some ((least, most), rest)

/-- Repeating the last item, for a repetition sign at `position`. -/
def repeatLast (s : State) (position least : Nat) (most : Option Nat) (rest : List Token) :
    Except RegexError State := do
  match s.frame.items with
  | [] => fail .nothingToRepeat position
  | item :: items =>
    if item.isAnchor then fail .nothingToRepeat position
    if item.isMany then fail .multipleRepeat position
    let (eagerness, rest) ←
      match ← accept '?' rest with
      | some rest => pure (Eagerness.reluctant, rest)
      | none =>
        match ← accept '+' rest with
        | some rest => pure (Eagerness.possessive, rest)
        | none => pure (Eagerness.greedy, rest)
    let repeated := Regex.many least most eagerness item
    return { s with rest := rest, frame := { s.frame with items := repeated :: items } }

/-- The number of capturing groups that were opened before the outermost look-behind that is open. -/
def State.groupsBehind? (s : State) : Option Nat :=
  (s.frame :: s.outer).foldl (fun inner f =>
    match f.role with
    | .behind _ groups => some groups
    | _ => inner) none

/-- A look-behind refers to no group that is open or stands in it. What is read goes on at `position`. -/
def checkBehind (s : State) (group position : Nat) : Except RegexError Unit :=
  match s.groupsBehind? with
  | none => .ok ()
  | some groups =>
    if (s.closed.lookup group).isNone then fail .openGroup position
    else if groups < group then fail .groupInLookBehind position
    else .ok ()

/-- A back-reference to a group, or a character with an octal number, after a backslash and the digit
`c`, which is not zero. -/
def reference (s : State) (position : Nat) (c : Char) (rest : List Token) :
    Except RegexError State := do
  let (second, rest) ← runOf Char.isDigit 1 rest
  let (third, rest) ←
    if isOctal c && second ≠ [] && second.all isOctal then runOf isOctal 1 rest
    else pure ([], rest)
  if third ≠ [] then
    return s.push (.char (← octalChar position (c :: second ++ third))) rest
  let group := number (c :: second)
  if s.groups < group then fail (.invalidGroup group) (position + 1)
  if (s.closed.lookup group).isNone then fail .openGroup position
  checkBehind s group (positionOf s.length rest)
  return s.push (.backref group) rest

/-- An escape outside sets. -/
def escape (named : Text → Option Char) (s : State) (position : Nat) (c : Char) (rest : List Token) :
    Except RegexError State :=
  match anchorOf? c, classOf? c, controlOf? c, hexWidth? c with
  | some place, _, _, _ => .ok (s.push (.anchor place) rest)
  | _, some item, _, _ => .ok (s.push (.set false [item]) rest)
  | _, _, some control, _ => .ok (s.push (.char control.toNat) rest)
  | _, _, _, some width => do
    let (d, rest) ← hexChar position c width rest
    return s.push (.char d) rest
  | none, none, none, none =>
    if c = 'N' then do
      let (d, rest) ← namedChar named s.length position rest
      return s.push (.char d) rest
    else if c = '0' then do
      let (more, rest) ← runOf isOctal 2 rest
      return s.push (.char (← octalChar position (c :: more))) rest
    else if c.isDigit then reference s position c rest
    else do return s.push (.char (← selfChar position c)) rest

/-- The state with a new group open. -/
def State.openGroup (s : State) (start : Nat) (role : Role) (verbose : Bool) (rest : List Token) :
    State :=
  { s with rest := rest, frame := ⟨start, role, verbose, [], []⟩, outer := s.frame :: s.outer }

/-- The flags with those that a letter switches on. What is read goes on at `position`. -/
def switchOn (on flag : Flags) (c : Char) (position : Nat) : Except RegexError Flags :=
  if c = 'L' then fail .localeFlag position
  else
    let on := on.union flag
    if on.ascii && on.unicode then fail .bothAlphabets position else .ok on

/-- The flags with one more to switch off. What is read goes on at `position`. -/
def switchOff (off flag : Flags) (c : Char) (position : Nat) : Except RegexError Flags :=
  if c = 'L' || flag.ascii || flag.unicode then fail .alphabetOff position else .ok (off.union flag)

/-- A character that is no flag, where something else than a flag may stand. -/
def noFlag (c : Char) (otherwise : RegexFault) : RegexFault :=
  if Text.isLetter c then .unknownFlag else otherwise

/-- The flags switched off in front of a group's contents, the first of them read. -/
def flagsOff (length : Nat) (off : Flags) : List Token → Except RegexError (Flags × List Token)
  | [] => fail .missingColon length
  | t :: rest => do
    let _ ← goOn rest
    match t.glyph with
    | .plain ':' => return (off, rest)
    | .plain c =>
      match Flags.ofInlineLetter? c with
      | some flag => flagsOff length (← switchOff off flag c (positionOf length rest)) rest
      | none => fail (noFlag c .missingColon) t.position
    | _ => fail .missingColon t.position

/-- How the flags in front of a group's contents end. -/
inductive FlagsEnd where
  /-- They are flags of the whole expression. -/
  | whole
  /-- The contents follow. -/
  | contents
  /-- Flags to switch off follow. -/
  | off

/-- The flags switched on in front of a group's contents, the first of them read. -/
def flagsOn (length : Nat) (on : Flags) :
    List Token → Except RegexError (Flags × FlagsEnd × List Token)
  | [] => fail .unfinishedFlags length
  | t :: rest => do
    let _ ← goOn rest
    match t.glyph with
    | .plain ')' => return (on, .whole, rest)
    | .plain ':' => return (on, .contents, rest)
    | .plain '-' => return (on, .off, rest)
    | .plain c =>
      match Flags.ofInlineLetter? c with
      | some flag => flagsOn length (← switchOn on flag c (positionOf length rest)) rest
      | none => fail (noFlag c .unfinishedFlags) t.position
    | _ => fail .unfinishedFlags t.position

/-- A group whose flags to switch off come next. -/
def groupWithout (s : State) (start : Nat) (on : Flags) (rest : List Token) :
    Except RegexError State := do
  match rest with
  | [] => fail .missingFlag s.length
  | t :: rest =>
    let _ ← goOn rest
    match t.glyph with
    | .plain c =>
      match Flags.ofInlineLetter? c with
      | none => fail (noFlag c .missingFlag) t.position
      | some flag =>
        let first ← switchOff {} flag c (positionOf s.length rest)
        let (off, rest) ← flagsOff s.length first rest
        let colon := positionOf s.length rest - 1
        if off.template then fail .wholeFlagOff colon
        if on.without off ≠ on then fail .contradictoryFlags colon
        let verbose := (s.frame.verbose || on.verbose) && !off.verbose
        return s.openGroup start (.flagged on off) verbose rest
    | _ => fail .missingFlag t.position

/-- A group with flags, the first of them `first`. -/
def groupWith (s : State) (start : Nat) (first : Flags) (rest : List Token) :
    Except RegexError State := do
  let (on, ending, rest) ← flagsOn s.length first rest
  match ending with
  | .whole =>
    let f := s.frame
    if f.role ≠ .whole || f.branches.length > 0 || f.items.length > 0 then
      fail .misplacedFlags start
    let flags := s.flags.union on
    return { s with flags := flags, rest := rest, frame := { f with verbose := flags.verbose } }
  | .contents =>
    if on.template then fail .wholeFlagOn (positionOf s.length rest - 1)
    return s.openGroup start (.flagged on {}) (s.frame.verbose || on.verbose) rest
  | .off =>
    if on.template then fail .wholeFlagOn (positionOf s.length rest - 1)
    groupWithout s start on rest

/-- A group that captures, after what stands at its start. -/
def capturing (s : State) (start : Nat) (rest : List Token) : State :=
  let n := s.groups + 1
  { s with groups := n }.openGroup start (.group (some n)) s.frame.verbose rest

/-- The name of a group up to the character that ends it, and what follows. -/
def groupName (length : Nat) (stop : Char) (rest : List Token) :
    Except RegexError (Text × List Token) := do
  let (name, after) ← upTo length stop "group name" [] rest
  if Text.isIdentifier name then return (name, after)
  else fail (.badGroupName name) (positionOf length rest)

/-- A group with a name, which comes next. -/
def namedGroup (s : State) (start : Nat) (rest : List Token) : Except RegexError State := do
  let (name, after) ← groupName s.length '>' rest
  match s.names.lookup name with
  | some earlier => fail (.nameTaken name (s.groups + 1) earlier) (positionOf s.length rest)
  | none => return capturing { s with names := (name, s.groups + 1) :: s.names } start after

/-- A back-reference to a group by its name, which comes next. -/
def namedReference (s : State) (rest : List Token) : Except RegexError State := do
  let (name, after) ← groupName s.length ')' rest
  match s.names.lookup name with
  | none => fail (.unknownGroup name) (positionOf s.length rest)
  | some group =>
    if (s.closed.lookup group).isNone then fail .openGroup (positionOf s.length rest)
    checkBehind s group (positionOf s.length after)
    return s.push (.backref group) after

/-- A group or a reference that has to do with a name. -/
def withName (s : State) (start : Nat) (rest : List Token) : Except RegexError State := do
  match ← accept '<' rest with
  | some rest => namedGroup s start rest
  | none =>
    match ← accept '=' rest with
    | some rest => namedReference s rest
    | none =>
      match rest with
      | [] => fail .unexpectedEnd s.length
      | t :: rest =>
        let _ ← goOn rest
        fail (.unknownExtension ('P' :: t.text)) (t.position - 2)

/-- The number of a group from which on it is refused. -/
def tooManyGroups : Nat := 1073741823

/-- The group on which a choice depends, given by its name or its number at `position`, and whether it is
given by its number. -/
def askedGroup (s : State) (name : Text) (position : Nat) : Except RegexError (Nat × Bool) :=
  if Text.isIdentifier name then
    match s.names.lookup name with
    | none => fail (.unknownGroup name) position
    | some group => .ok (group, false)
  else
    match Text.integer? name with
    | some (.ofNat 0) => fail .badGroupNumber position
    | some (.ofNat group) =>
      if tooManyGroups ≤ group then fail (.invalidGroup group) position else .ok (group, true)
    | _ => fail (.badGroupName name) position

/-- A choice that depends on a group, which comes next. -/
def choice (s : State) (start : Nat) (rest : List Token) : Except RegexError State := do
  let position := positionOf s.length rest
  let (name, after) ← upTo s.length ')' "group name" [] rest
  let (group, byNumber) ← askedGroup s name position
  let isNew := byNumber && (s.asked.lookup group).isNone
  let s := if isNew then { s with asked := s.asked ++ [(group, position)] } else s
  checkBehind s group (positionOf s.length after)
  return s.openGroup start (.ifGroup group) s.frame.verbose after

/-- A look-behind, whose kind comes next. -/
def lookBehind (s : State) (start : Nat) : List Token → Except RegexError State
  | [] => fail .unexpectedEnd s.length
  | t :: rest => do
    let _ ← goOn rest
    if t.is '=' then return s.openGroup start (.behind true s.groups) s.frame.verbose rest
    else if t.is '!' then return s.openGroup start (.behind false s.groups) s.frame.verbose rest
    else fail (.unknownExtension ('<' :: t.text)) (t.position - 2)

/-- The tokens after a comment, which a parenthesis ends. -/
def afterRemark (start : Nat) : List Token → Except RegexError (List Token)
  | [] => fail .unterminatedComment start
  | t :: rest => do
    let _ ← goOn rest
    if t.is ')' then return rest else afterRemark start rest

/-- A group, after its opening parenthesis at `start`. -/
def group (s : State) (start : Nat) (rest : List Token) : Except RegexError State := do
  match ← accept '?' rest with
  | none => return capturing s start rest
  | some [] => fail .unexpectedEnd s.length
  | some (t :: rest) =>
    let _ ← goOn rest
    match t.glyph with
    | .plain 'P' => withName s start rest
    | .plain ':' => return s.openGroup start (.group none) s.frame.verbose rest
    | .plain '#' => return { s with rest := ← afterRemark start rest }
    | .plain '=' => return s.openGroup start (.ahead true) s.frame.verbose rest
    | .plain '!' => return s.openGroup start (.ahead false) s.frame.verbose rest
    | .plain '<' => lookBehind s start rest
    | .plain '(' => choice s start rest
    | .plain '>' => return s.openGroup start .atomic s.frame.verbose rest
    | .plain '-' => groupWithout s start {} rest
    | .plain c =>
      match Flags.ofInlineLetter? c with
      | some flag =>
        groupWith s start (← switchOn {} flag c (positionOf s.length rest)) rest
      | none => fail (.unknownExtension [c]) (t.position - 1)
    | .escaped c => fail (.unknownExtension ['\\', c]) (t.position - 1)
    | .dangling => fail .escapeAtEnd t.position

/-- Closing the innermost group, at the parenthesis at `position`. -/
def close (s : State) (position : Nat) (rest : List Token) : Except RegexError State := do
  match s.outer with
  | [] =>
    if s.flags.ascii && s.flags.unicode then throw ⟨.incompatibleFlags, none⟩
    fail .unbalancedParenthesis position
  | f :: outer =>
    let rest ← goOn rest
    let closed :=
      match s.frame.role with
      | .group (some n) => (n, s.frame.body.width s.closed) :: s.closed
      | _ => s.closed
    return { s with
      rest := rest, closed := closed, outer := outer,
      frame := { f with items := s.frame.regex s.closed :: f.items } }

/-- Whether a frame is a choice that depends on a group. -/
def Frame.isChoice (f : Frame) : Bool :=
  match f.role with
  | .ifGroup _ => true
  | _ => false

/-- Ending an alternative, at the bar at `position`. -/
def bar (s : State) (position : Nat) (rest : List Token) : Except RegexError State := do
  let f := s.frame
  if f.isChoice && f.branches.length > 0 then fail .tooManyBranches position
  let rest ← goOn rest
  let branches := Regex.sequence f.items.reverse :: f.branches
  let verbose := if f.role = .whole then s.flags.verbose else f.verbose
  return { s with rest := rest, frame := { f with branches, items := [], verbose } }

/-- The tokens after a comment, which a line break ends. -/
def afterComment : List Token → Except RegexError (List Token)
  | [] => .ok []
  | t :: rest => do
    let _ ← goOn rest
    if t.is '\n' then return rest else afterComment rest

/-- Whether a character is skipped in an expression with blanks and comments. -/
def isSkipped (c : Char) : Bool := [' ', '\t', '\n', '\r', '\x0b', '\x0c'].contains c

/-- Reading what starts with an unescaped character. -/
def plain (named : Text → Option Char) (s : State) (position : Nat) (c : Char) (rest : List Token) :
    Except RegexError State := do
  if s.frame.verbose && isSkipped c then return { s with rest := rest }
  if s.frame.verbose && c = '#' then return { s with rest := ← afterComment rest }
  match c with
  | '.' => return s.push .any rest
  | '^' => return s.push (.anchor .lineStart) rest
  | '$' => return s.push (.anchor .lineEnd) rest
  | '[' =>
    let (item, rest) ← set named s.length position rest
    return s.push item rest
  | '(' => group s position rest
  | '*' => repeatLast s position 0 none rest
  | '+' => repeatLast s position 1 none rest
  | '?' => repeatLast s position 0 (some 1) rest
  | '\x7b' =>
    match ← bounds s.length rest with
    | none => return s.push (.char c.toNat) rest
    | some ((least, most), rest) => repeatLast s position least most rest
  | _ => return s.push (.char c.toNat) rest

/-- Reading one item, group boundary or separator. -/
def step (named : Text → Option Char) (s : State) : Except RegexError State :=
  match s.rest with
  | [] => .ok s
  | ⟨glyph, position⟩ :: rest =>
    match glyph with
    | .plain '|' => bar s position rest
    | .plain ')' => close s position rest
    | .plain c => do plain named s position c (← goOn rest)
    | .escaped c => do escape named s position c (← goOn rest)
    | .dangling => fail .escapeAtEnd position

/-- Reading in at most `steps` steps. -/
def run (named : Text → Option Char) : (steps : Nat) → State → Except RegexError State
  | 0, s => .ok s
  | steps + 1, s => if s.rest = [] then .ok s else step named s >>= run named steps

/-- The greatest number of characters that a look-behind goes back. -/
def farthestBehind : Nat := 4294967295

/-- The first fault of an expression that shows when it is known as a whole, if these are its flags and the
widths of its groups. -/
def lateFault? (flags : Flags) (groups : List (Nat × Width)) : Regex → Option RegexFault
  | .empty => none
  | .char _ => none
  | .any => none
  | .set _ _ => none
  | .anchor _ => none
  | .seq first second => lateFault? flags groups first <|> lateFault? flags groups second
  | .alt first second => lateFault? flags groups first <|> lateFault? flags groups second
  | .many _ _ eagerness body =>
    if flags.template then some (.repetitionInTemplate eagerness) else lateFault? flags groups body
  | .group _ body => lateFault? flags groups body
  | .flagged _ _ body => lateFault? flags groups body
  | .ahead _ body => lateFault? flags groups body
  | .behind _ _ body =>
    let width := body.width groups
    if farthestBehind < width.least then some .lookBehindTooFar
    else if width.most ≠ some width.least then some .lookBehindWidth
    else lateFault? flags groups body
  | .atomic body => lateFault? flags groups body
  | .backref _ => none
  | .ifGroup _ yes no => lateFault? flags groups yes <|> lateFault? flags groups no

/-- The expression and the flags of a state in which everything has been read. -/
def finish (s : State) : Except RegexError (Regex × Flags) := do
  if s.outer.length > 0 then fail .unterminatedGroup s.frame.start
  if s.flags.ascii && s.flags.unicode then throw ⟨.incompatibleFlags, none⟩
  match s.asked.find? fun (group, _) => s.groups < group with
  | some (group, position) => fail (.invalidGroup group) position
  | none =>
    let regex := s.frame.regex s.closed
    match lateFault? s.flags s.closed regex with
    | some fault => throw ⟨fault, none⟩
    | none => return (regex, s.flags)

end RegexReader

open RegexReader in
/-- The expression written in a text, with the flags it switches on for itself. A character may be written
with the name that it has by `named`. -/
def Regex.read (flags : Flags) (source : Text) (named : Text → Option Char) :
    Except RegexError (Regex × Flags) := do
  let all ← goOn (tokens 0 source)
  let start : State :=
    { length := source.length, rest := all, flags, groups := 0, closed := [], names := [], asked := [],
      frame := ⟨0, .whole, flags.verbose, [], []⟩, outer := [] }
  finish (← run named all.length start)

end PhpPrefixer
