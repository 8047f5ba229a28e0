import PhpPrefixer.Prefixer

/-!
# Configuration

A configuration is read from named fields without looking much at their values; checking it gives the
settings of a run. The first fault in a fixed order of checks is reported.
-/

namespace PhpPrefixer

/-- A configuration as it was given. -/
structure Config where
  /-- The prefix. -/
  root : Value
  /-- The version of the format. -/
  version : Value
  /-- The extensions of files that hold code. -/
  extensions : List Value
  /-- What to do with what cannot be handled. -/
  policy : Value
  /-- Whether names computed at run time are reported. -/
  warnDynamic : Value
  /-- The number of workers. -/
  workers : Value
  /-- The level from which on entries are kept. -/
  level : Value
  /-- The exclusion rules. -/
  rules : List (Text × Value)
  deriving BEq, Repr

/-- A configuration that was checked. -/
structure Settings where
  /-- The prefix. -/
  root : Text
  /-- The extensions of files that hold code. -/
  extensions : List Text
  /-- What to do with what cannot be handled. -/
  policy : UnsupportedPolicy
  /-- Whether names computed at run time are reported. -/
  warnDynamic : Bool
  /-- The number of workers. -/
  workers : Int
  /-- The level from which on entries are kept. -/
  level : Level
  /-- The exclusion rules. -/
  whitelist : Whitelist

/-- Exclusion rules from fields, with the entry about them. -/
def Whitelist.load (fields : List (Text × Value)) : Plan Whitelist :=
  match ofFields fields with
  | .error e => Plan.fail (.badWhitelist e)
  | .ok w => do
    Plan.write w.entry
    return w

namespace Config

/-- The only version of the format. -/
def knownVersion : Text := "1.0".toList

/-- The extensions when none are given. -/
def defaultExtensions : List Text := [".php".toList]

/-- The fields made of names and values, the first with the given number. -/
def pairsFrom (index : Nat) (fields : List (Text × Value)) :
    List Value → Except ConfigError (List (Text × Value))
  | [] => .ok fields
  | item :: items =>
    match item.parts? with
    | none => .error .rulesNotFields
    | some [.text name, v] => pairsFrom (index + 1) (Value.setField fields name v) items
    | some [_, _] => .error .rulesNotFields
    | some parts => .error (.ruleNotPaired index parts.length)

/-- The fields a value gives: its own, or those made of the names and values it lists. -/
def fieldsOf : Value → Except ConfigError (List (Text × Value))
  | .object fields => .ok fields
  | v =>
    match v.parts? with
    | some items => pairsFrom 0 [] items
    | none => .error .rulesNotFields

/-- The configuration given by fields. -/
def ofFields (fields : List (Text × Value)) : Except ConfigError Config := do
  let some root := Value.field? fields "prefix" | .error .missingPrefix
  let some extensions := ((Value.field? fields "file_extensions").getD
      (.list (defaultExtensions.map .text))).parts? | .error .extensionsNotListed
  let rules ← fieldsOf ((Value.field? fields "whitelist").getD (.object []))
  return {
    root, extensions, rules,
    version := (Value.field? fields "version").getD (.text knownVersion),
    policy := (Value.field? fields "unsupported_construct").getD
      (.text UnsupportedPolicy.skip.word.toList),
    warnDynamic := (Value.field? fields "warn_on_dynamic_names").getD (.bool true),
    workers := (Value.field? fields "max_workers").getD (.int 4),
    level := (Value.field? fields "log_level").getD (.text Level.info.name.toList) }

/-- The fields that give a configuration. -/
def toFields (c : Config) : List (Text × Value) :=
  [("version".toList, c.version), ("prefix".toList, c.root),
    ("file_extensions".toList, .list c.extensions),
    ("unsupported_construct".toList, c.policy),
    ("warn_on_dynamic_names".toList, c.warnDynamic), ("max_workers".toList, c.workers),
    ("log_level".toList, c.level), ("whitelist".toList, .object c.rules)]

/-- Whether the fields of a configuration give it back. -/
def roundTrips (c : Config) : Bool :=
  match ofFields c.toFields with
  | .ok c' => c' == c
  | .error _ => false

/-- The configuration given by fields, with the entry about it. -/
def load (fields : List (Text × Value)) : Plan Config :=
  match ofFields fields with
  | .error e => Plan.fail (.badConfig e)
  | .ok c => do
    Plan.note .debug .config
      ("Created configuration from dictionary for prefix '" ++ String.ofList c.root.display ++ "'")
    return c

/-- The version, checked. -/
def checkVersion (c : Config) : Except ConfigError Unit :=
  if c.version.text? = some knownVersion then .ok () else .error (.version c.version)

/-- The prefix, checked. -/
def checkRoot (c : Config) : Except PrefixError Text := Prefix.validate c.root.text?

/-- An extension, checked: it has more than dots. -/
def checkExtension (v : Value) : Except ConfigError Text :=
  match v with
  | .text t => if t.all (· = '.') then .error (.extension v) else .ok t
  | _ => .error (.extension v)

/-- The extensions, checked. -/
def checkExtensions (c : Config) : Except ConfigError (List Text) :=
  if c.extensions.isEmpty then .error .noExtensions else c.extensions.mapM checkExtension

/-- The policy a value names. -/
def policyOf? (v : Value) : Option UnsupportedPolicy := v.text?.bind UnsupportedPolicy.ofText?

/-- The policy, checked. -/
def checkPolicy (c : Config) : Except ConfigError UnsupportedPolicy :=
  match c.policy with
  | .list _ => .error .policyNotSimple
  | .object _ => .error .policyNotSimple
  | v =>
    match policyOf? v with
    | some p => .ok p
    | none => .error (.policy v)

/-- The policy as it is used. -/
def usedPolicy (c : Config) : Except ConfigError UnsupportedPolicy :=
  match policyOf? c.policy with
  | some p => .ok p
  | none => .error (.policyUnknown c.policy)

/-- The warning switch, checked. -/
def checkWarning (c : Config) : Except ConfigError Bool :=
  match c.warnDynamic with
  | .bool b => .ok b
  | _ => .error .warningNotFlag

/-- The number of workers, checked. -/
def checkWorkers (c : Config) : Except ConfigError Int :=
  match c.workers with
  | .int n => if n < 1 then .error .workersNotPositive else .ok n
  | _ => .error .workersNotInteger

/-- The level, checked. -/
def checkLevel (c : Config) : Except ConfigError Level :=
  match c.level with
  | .text t =>
    match Level.ofText? t with
    | some level => .ok level
    | none => .error (.level t)
  | _ => .error .levelNotText

/-- The settings of a run, or the first fault of the configuration. -/
def check (c : Config) (dialect : Dialect := .standard) : Except Failure Settings := do
  c.checkVersion.mapError .badConfig
  let root ← c.checkRoot.mapError .badPrefix
  let extensions ← c.checkExtensions.mapError .badConfig
  let policy ← c.checkPolicy.mapError .badConfig
  let warnDynamic ← c.checkWarning.mapError .badConfig
  let workers ← c.checkWorkers.mapError .badConfig
  let level ← c.checkLevel.mapError .badConfig
  let whitelist ← (Whitelist.ofFields c.rules dialect).mapError .badWhitelist
  return { root, extensions, policy, warnDynamic, workers, level, whitelist }

/-- Checking a configuration, with the entries about it. -/
def validate (c : Config) (dialect : Dialect := .standard) : Plan Settings := do
  let s ← Plan.ofExcept (c.check dialect)
  Plan.write s.whitelist.entry
  Plan.note .debug .config
    ("Configuration for prefix '" ++ String.ofList c.root.display ++ "' validated successfully")
  return s

end Config

namespace Prefixer

/-- Telling what a prefixer was made for. -/
def announce (p : Prefixer) : Plan Unit :=
  Plan.note .debug .setup
    ("Created scoper for extensions "
      ++ String.ofList (Value.inner (.list (p.extensions.map .text)))
      ++ " (unsupported constructs: " ++ p.policy.word ++ ")")

/-- The prefixer of a run with or without a configuration. It knows the symbols of PHP where it is given no
native symbols, or an empty table of them. -/
def create (parse : Text → Parsed) (natives : Option NativeSymbols) (config : Option Config)
    (dialect : Dialect := .standard) : Plan Prefixer :=
  match config with
  | none => do
    let p : Prefixer := ⟨parse, .orPhp natives, Config.defaultExtensions, .skip, true⟩
    p.announce
    return p
  | some c => do
    let s ← c.validate dialect
    Plan.listen s.level
    let p : Prefixer := ⟨parse, .orPhp natives, s.extensions, s.policy, s.warnDynamic⟩
    p.announce
    return p

end Prefixer

end PhpPrefixer
