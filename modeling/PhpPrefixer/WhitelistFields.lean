import PhpPrefixer.Journal
import PhpPrefixer.Value
import PhpPrefixer.Whitelist

/-!
# Exclusion rules as configuration data

The rules are given as named fields; a name may have dashes in place of underscores. Every field
holds a list of texts or a truth value.
-/

namespace PhpPrefixer

/-- Why exclusion rules are refused. -/
inductive WhitelistError where
  /-- A field should hold a list of texts. -/
  | listExpected (name : Text)
  /-- A field should hold a truth value. -/
  | flagExpected (name : Text)
  /-- There is no field of this name. -/
  | unknownField (name : Text)
  /-- A pattern cannot be read. -/
  | pattern (error : PatternError)

namespace WhitelistError

/-- The names of all fields, sorted, as they are listed in messages. -/
def fieldsListed : String :=
  "['class_patterns', 'classes', 'constant_patterns', 'constants', 'excluded_namespaces', "
    ++ "'expose_global_classes', 'expose_global_constants', 'expose_global_functions', "
    ++ "'function_patterns', 'functions', 'namespace_patterns']"

/-- The wording of a refusal. -/
def message : WhitelistError → String
  | listExpected name =>
    "Whitelist option '" ++ String.ofList name ++ "' must be a list of strings"
  | flagExpected name => "Whitelist option '" ++ String.ofList name ++ "' must be a boolean"
  | unknownField name =>
    "Unknown whitelist option '" ++ String.ofList name ++ "'. Valid options: " ++ fieldsListed
  | pattern error => error.message

end WhitelistError

namespace WhitelistOptions

/-- The texts of a list of texts. -/
def texts? : Value → Option (List Text)
  | .list items => items.mapM Value.text?
  | _ => none

/-- The name of a field with underscores. -/
def underscored (name : Text) : String :=
  String.ofList (name.map fun c => if c = '-' then '_' else c)

/-- The rules with the value of one field set. -/
def setField (o : WhitelistOptions) (name : Text) (v : Value) :
    Except WhitelistError WhitelistOptions :=
  let list (set : List Text → WhitelistOptions) : Except WhitelistError WhitelistOptions :=
    match texts? v with
    | some ts => .ok (set ts)
    | none => .error (.listExpected name)
  let flag (set : Bool → WhitelistOptions) : Except WhitelistError WhitelistOptions :=
    match v with
    | .bool b => .ok (set b)
    | _ => .error (.flagExpected name)
  match underscored name with
  | "excluded_namespaces" => list fun ts => { o with excludedNamespaces := ts }
  | "namespace_patterns" => list fun ts => { o with namespacePatterns := ts }
  | "classes" => list fun ts => { o with classes := ts }
  | "class_patterns" => list fun ts => { o with classPatterns := ts }
  | "functions" => list fun ts => { o with functions := ts }
  | "function_patterns" => list fun ts => { o with functionPatterns := ts }
  | "constants" => list fun ts => { o with constants := ts }
  | "constant_patterns" => list fun ts => { o with constantPatterns := ts }
  | "expose_global_classes" => flag fun b => { o with exposeGlobalClasses := b }
  | "expose_global_functions" => flag fun b => { o with exposeGlobalFunctions := b }
  | "expose_global_constants" => flag fun b => { o with exposeGlobalConstants := b }
  | _ => .error (.unknownField name)

/-- The rules given by fields. -/
def ofFields (fields : List (Text × Value)) : Except WhitelistError WhitelistOptions :=
  fields.foldlM (fun o (name, v) => o.setField name v) {}

/-- The fields that give the rules. -/
def toFields (o : WhitelistOptions) : List (Text × Value) :=
  let list (name : String) (ts : List Text) := (name.toList, Value.list (ts.map .text))
  let flag (name : String) (b : Bool) := (name.toList, Value.bool b)
  [list "excluded_namespaces" o.excludedNamespaces,
   list "namespace_patterns" o.namespacePatterns,
   list "classes" o.classes,
   list "class_patterns" o.classPatterns,
   list "functions" o.functions,
   list "function_patterns" o.functionPatterns,
   list "constants" o.constants,
   list "constant_patterns" o.constantPatterns,
   flag "expose_global_classes" o.exposeGlobalClasses,
   flag "expose_global_functions" o.exposeGlobalFunctions,
   flag "expose_global_constants" o.exposeGlobalConstants]

end WhitelistOptions

namespace Whitelist

/-- The rules given by fields, with patterns in a dialect. -/
def ofFields (fields : List (Text × Value)) (dialect : Dialect := .standard) :
    Except WhitelistError Whitelist := do
  let options ← WhitelistOptions.ofFields fields
  match ofOptions options dialect with
  | .ok w => return w
  | .error e => .error (.pattern e)

/-- The fields that give the rules in force. -/
def toFields (w : Whitelist) : List (Text × Value) := w.toOptions.toFields

/-- Whether the fields of the rules give rules that are written out in the same way. -/
def roundTrips (w : Whitelist) (dialect : Dialect := .standard) : Bool :=
  match ofFields w.toFields dialect with
  | .ok w' => w'.toOptions = w.toOptions
  | .error _ => false

/-- The entry about rules that were loaded. -/
def entry (w : Whitelist) : Entry where
  level := .debug
  channel := .whitelist
  message := "Whitelist loaded: " ++ toString w.excludedNamespaces.length ++ " namespaces, "
    ++ toString w.classes.length ++ " classes, " ++ toString w.functions.length ++ " functions, "
    ++ toString w.constants.length ++ " constants"

end Whitelist

end PhpPrefixer
