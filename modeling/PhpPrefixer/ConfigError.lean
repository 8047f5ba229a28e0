import PhpPrefixer.Journal
import PhpPrefixer.Value

/-!
# Refused configurations

Why a configuration is refused, and the wording of each refusal.
-/

namespace PhpPrefixer

/-- Why a configuration is refused. -/
inductive ConfigError where
  /-- There is no prefix. -/
  | missingPrefix
  /-- The extensions have no parts. -/
  | extensionsNotListed
  /-- The exclusion rules are no fields. -/
  | rulesNotFields
  /-- A part of the exclusion rules should be a name and a value but has another length. -/
  | ruleNotPaired (index length : Nat)
  /-- The version is not known. -/
  | version (v : Value)
  /-- There are no extensions. -/
  | noExtensions
  /-- An extension is not one. -/
  | extension (v : Value)
  /-- The policy is a list or an object. -/
  | policyNotSimple
  /-- The policy is not known to the check. -/
  | policy (v : Value)
  /-- The policy is not known where it is used. -/
  | policyUnknown (v : Value)
  /-- The warning switch is no truth value. -/
  | warningNotFlag
  /-- The number of workers is no integer. -/
  | workersNotInteger
  /-- The number of workers is not positive. -/
  | workersNotPositive
  /-- The level is no text. -/
  | levelNotText
  /-- The level is not known. -/
  | level (t : Text)

/-- The wording of a refusal; where it is only told by its kind, a short description. -/
def ConfigError.message : ConfigError → String
  | missingPrefix => "Missing required field in configuration: 'prefix'"
  | extensionsNotListed => "the file extensions have no parts"
  | rulesNotFields => "the exclusion rules are no fields"
  | ruleNotPaired index length =>
    "dictionary update sequence element #" ++ toString index ++ " has length " ++ toString length
      ++ "; 2 is required"
  | version v => "Invalid version: " ++ String.ofList v.display ++ ". Expected '1.0'"
  | noExtensions => "Option 'file_extensions' must be a non-empty list"
  | extension v => "Invalid file extension: " ++ String.ofList v.inner
  | policyNotSimple => "the policy is a list or an object"
  | policy v =>
    "Invalid unsupported_construct policy: " ++ String.ofList v.display
      ++ ". Expected one of ['fail', 'skip']"
  | policyUnknown v => String.ofList v.inner ++ " is not a valid UnsupportedConstructPolicy"
  | warningNotFlag => "Option 'warn_on_dynamic_names' must be a boolean"
  | workersNotInteger => "Option 'max_workers' must be an integer"
  | workersNotPositive => "Option 'max_workers' must be a positive integer"
  | levelNotText => "the level is no text"
  | level t =>
    "Invalid log_level: " ++ String.ofList t ++ ". Expected one of " ++ Level.namesListed

end PhpPrefixer
