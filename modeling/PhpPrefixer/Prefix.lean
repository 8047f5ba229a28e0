import PhpPrefixer.Name
import PhpPrefixer.Text.Blank
import PhpPrefixer.Text.Quoted
import PhpPrefixer.Text.Word

/-!
# The prefix

The namespace under which everything is moved. Blanks and then separators around what the user
gave are dropped; what remains is word characters and single separators, starting with a word
character. A line break at the very end is let through.
-/

namespace PhpPrefixer

/-- Why a prefix is refused. -/
inductive PrefixError where
  /-- No text was given. -/
  | notText
  /-- Nothing remains after trimming. -/
  | empty
  /-- What remains is no namespace name. -/
  | malformed (given : Text)
  deriving DecidableEq, Repr

/-- The wording of a refusal. -/
def PrefixError.message : PrefixError → String
  | notText => "Prefix must be a string"
  | empty => "Prefix cannot be empty"
  | malformed given =>
    "Invalid prefix: " ++ String.ofList (Text.quoted given)
      ++ ". Expected letters, digits, underscores and single namespace separators"

namespace Prefix

/-- The prefix without blanks and then without separators around it. -/
def normalized (given : Text) : Text := Name.trimmed (Text.trimBlank given)

/-- Whether a text is a word character followed by word characters and separators. -/
def isWordy : Text → Bool
  | [] => false
  | c :: cs => Text.isWord c && cs.all fun d => Text.isWord d || d = Name.separator

/-- Whether two separators stand next to each other. -/
def hasDoubled (t : Text) : Bool := (Text.cut? [Name.separator, Name.separator] t).isSome

/-- The prefix to use for what the user gave; `none` stands for something that is no text. -/
def validate : Option Text → Except PrefixError Text
  | none => .error .notText
  | some given =>
    let root := normalized given
    if root = [] then .error .empty
    else if !Text.holdsOfLine isWordy root || hasDoubled root then .error (.malformed given)
    else .ok root

/-- What is accepted: the trimmed prefix, if it is not empty, has words only, and single separators. -/
theorem validate_eq_ok_iff {given q : Text} :
    validate (some given) = .ok q
      ↔ q = normalized given ∧ q ≠ [] ∧ Text.holdsOfLine isWordy q = true ∧ hasDoubled q = false := by
  simp only [validate]
  split
  · next hnil => exact ⟨nofun, fun ⟨hq, hne, _⟩ => absurd (hq.trans hnil) hne⟩
  · next hne =>
    split
    · next hbad =>
      refine ⟨nofun, ?_⟩
      rintro ⟨rfl, -, hline, hsingle⟩
      simp [hline, hsingle] at hbad
    · next hgood =>
      simp only [Bool.or_eq_true, Bool.not_eq_true', not_or, Bool.not_eq_false, Bool.not_eq_true] at hgood
      refine ⟨fun h => ?_, fun h => congrArg Except.ok h.1.symm⟩
      obtain rfl := Except.ok.inj h
      exact ⟨rfl, hne, hgood⟩

end Prefix

end PhpPrefixer
