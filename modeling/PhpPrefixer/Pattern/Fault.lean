import PhpPrefixer.Pattern.Regex
import PhpPrefixer.Text.Quoted

/-!
# Faults of regular expressions

What can be wrong with an expression, and the wording. Most faults are found while an expression is read,
and have a position in it. Some are found only afterwards, when it is known as a whole.
-/

namespace PhpPrefixer

/-- Why an expression cannot be read. -/
inductive RegexFault where
  /-- A group is not closed. -/
  | unterminatedGroup
  /-- A group is closed that was not opened. -/
  | unbalancedParenthesis
  /-- A comment is not closed. -/
  | unterminatedComment
  /-- A set is not closed. -/
  | unterminatedSet
  /-- There is nothing a repetition could apply to. -/
  | nothingToRepeat
  /-- A repetition is repeated. -/
  | multipleRepeat
  /-- The expression ends in a backslash. -/
  | escapeAtEnd
  /-- A backslash stands before a letter without meaning. -/
  | badEscape (escape : Text)
  /-- A number after a backslash has too few digits. -/
  | incompleteEscape (escape : Text)
  /-- An octal number after a backslash is too great. -/
  | octalTooGreat (escape : Text)
  /-- The name of a character does not follow in braces. -/
  | missingBrace
  /-- No character has this name. -/
  | unknownCharacter (name : Text)
  /-- A range runs backwards or has a class for an end. -/
  | badRange (first last : Text)
  /-- The least number of a repetition exceeds the most. -/
  | leastAboveMost
  /-- The number of a repetition is too great. -/
  | repetitionTooGreat
  /-- A reference names no group. -/
  | invalidGroup (number : Nat)
  /-- No group has this name. -/
  | unknownGroup (name : Text)
  /-- A back-reference names the group it stands in. -/
  | openGroup
  /-- A reference in a look-behind names a group in the same look-behind. -/
  | groupInLookBehind
  /-- A name is empty, of the sort given. -/
  | missingName (sort : String)
  /-- A name is not ended. -/
  | unterminatedName (stop : Char)
  /-- The name of a group is no identifier. -/
  | badGroupName (name : Text)
  /-- Groups are counted from one. -/
  | badGroupNumber
  /-- Two groups have one name. -/
  | nameTaken (name : Text) (number earlier : Nat)
  /-- A choice that depends on a group has more than two sides. -/
  | tooManyBranches
  /-- The expression ends after the start of an extension. -/
  | unexpectedEnd
  /-- An extension is not known. -/
  | unknownExtension (name : Text)
  /-- A flag is not known. -/
  | unknownFlag
  /-- The flags of a group are not ended. -/
  | unfinishedFlags
  /-- A minus is not followed by a flag. -/
  | missingFlag
  /-- The flags switched off are not followed by a colon. -/
  | missingColon
  /-- The rules of a place are for bytes only. -/
  | localeFlag
  /-- A group chooses both ASCII and Unicode. -/
  | bothAlphabets
  /-- The choice between ASCII and Unicode cannot be switched off. -/
  | alphabetOff
  /-- A flag for the whole expression is switched on for a part of it. -/
  | wholeFlagOn
  /-- A flag for the whole expression is switched off. -/
  | wholeFlagOff
  /-- A flag is switched on and off. -/
  | contradictoryFlags
  /-- Flags for the whole expression do not stand at its start. -/
  | misplacedFlags
  /-- The whole expression chooses both ASCII and Unicode. -/
  | incompatibleFlags
  /-- A repetition stands where none is allowed. -/
  | repetitionInTemplate (eagerness : Eagerness)
  /-- A look-behind can match texts of different lengths. -/
  | lookBehindWidth
  /-- A look-behind goes back too far. -/
  | lookBehindTooFar
  deriving DecidableEq, Repr

namespace RegexFault

/-- The wording of a fault. -/
def message : RegexFault → String
  | unterminatedGroup => "missing ), unterminated subpattern"
  | unbalancedParenthesis => "unbalanced parenthesis"
  | unterminatedComment => "missing ), unterminated comment"
  | unterminatedSet => "unterminated character set"
  | nothingToRepeat => "nothing to repeat"
  | multipleRepeat => "multiple repeat"
  | escapeAtEnd => "bad escape (end of pattern)"
  | badEscape escape => "bad escape " ++ String.ofList escape
  | incompleteEscape escape => "incomplete escape " ++ String.ofList escape
  | octalTooGreat escape =>
    "octal escape value " ++ String.ofList escape ++ " outside of range 0-0o377"
  | missingBrace => "missing \x7b"
  | unknownCharacter name => "undefined character name " ++ String.ofList (Text.quoted name)
  | badRange first last =>
    "bad character range " ++ String.ofList first ++ "-" ++ String.ofList last
  | leastAboveMost => "min repeat greater than max repeat"
  | repetitionTooGreat => "the repetition number is too large"
  | invalidGroup number => "invalid group reference " ++ toString number
  | unknownGroup name => "unknown group name " ++ String.ofList (Text.quoted name)
  | openGroup => "cannot refer to an open group"
  | groupInLookBehind => "cannot refer to group defined in the same lookbehind subpattern"
  | missingName sort => "missing " ++ sort
  | unterminatedName stop => "missing " ++ String.ofList [stop] ++ ", unterminated name"
  | badGroupName name => "bad character in group name " ++ String.ofList (Text.quoted name)
  | badGroupNumber => "bad group number"
  | nameTaken name number earlier =>
    "redefinition of group name " ++ String.ofList (Text.quoted name) ++ " as group "
      ++ toString number ++ "; was group " ++ toString earlier
  | tooManyBranches => "conditional backref with more than two branches"
  | unexpectedEnd => "unexpected end of pattern"
  | unknownExtension name => "unknown extension ?" ++ String.ofList name
  | unknownFlag => "unknown flag"
  | unfinishedFlags => "missing -, : or )"
  | missingFlag => "missing flag"
  | missingColon => "missing :"
  | localeFlag => "bad inline flags: cannot use 'L' flag with a str pattern"
  | bothAlphabets => "bad inline flags: flags 'a', 'u' and 'L' are incompatible"
  | alphabetOff => "bad inline flags: cannot turn off flags 'a', 'u' and 'L'"
  | wholeFlagOn => "bad inline flags: cannot turn on global flag"
  | wholeFlagOff => "bad inline flags: cannot turn off global flag"
  | contradictoryFlags => "bad inline flags: flag turned on and off"
  | misplacedFlags => "global flags not at the start of the expression"
  | incompatibleFlags => "ASCII and UNICODE flags are incompatible"
  | repetitionInTemplate .greedy => "internal: unsupported template operator MAX_REPEAT"
  | repetitionInTemplate .reluctant => "internal: unsupported template operator MIN_REPEAT"
  | repetitionInTemplate .possessive => "internal: unsupported template operator POSSESSIVE_REPEAT"
  | lookBehindWidth => "look-behind requires fixed-width pattern"
  | lookBehindTooFar => "looks too much behind"

/-- Whether a fault is told in its own words only, without the pattern it is found in. -/
def isBare : RegexFault → Bool
  | repetitionTooGreat => true
  | incompatibleFlags => true
  | _ => false

end RegexFault

/-- A fault and where it was found. -/
structure RegexError where
  /-- What is wrong. -/
  fault : RegexFault
  /-- The position, in characters from the start of the expression, unless it is the whole expression. -/
  position : Option Nat
  deriving DecidableEq, Repr

end PhpPrefixer
