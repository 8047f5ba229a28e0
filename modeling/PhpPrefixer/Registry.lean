import PhpPrefixer.Journal
import PhpPrefixer.Name

/-!
# The registry of renames

One registry is kept for a whole run. It only grows: the first rename of a symbol stays, later ones
confirm it, and a second one with another target is a conflict. Symbols are told apart by their kind
and the form under which they are looked up, and targets are compared in that form too.
-/

namespace PhpPrefixer

/-- One rename. -/
structure Rename where
  /-- The name before, as first seen. -/
  name : Text
  /-- The name after. -/
  renamed : Text
  /-- The kind of the symbol. -/
  kind : SymbolKind
  /-- The file in which the rename was first seen. -/
  file : Option Text
  deriving DecidableEq, Repr

namespace Rename

/-- What tells a renamed symbol from others. -/
def key (r : Rename) : SymbolKind × Text := (r.kind, Name.key r.kind r.name)

/-- The target as it is compared. -/
def target (r : Rename) : Text := Name.key r.kind r.renamed

/-- The rename without leading separators. -/
def bare (r : Rename) : Rename :=
  { r with name := Name.bare r.name, renamed := Name.bare r.renamed }

/-- Whether one rename is listed before another or beside it: by the word for the kind, then by the
lower-cased name before. -/
def listedBefore (a b : Rename) : Bool :=
  let wordA := a.kind.word.toList
  let wordB := b.kind.word.toList
  wordA < wordB || (wordA = wordB && !(Text.lower b.name < Text.lower a.name))

/-- The entry about a new rename. -/
def entry (r : Rename) : Entry where
  level := .debug
  channel := .registry
  message := "Recorded " ++ r.kind.word ++ " rename: " ++ String.ofList r.name ++ " -> "
    ++ String.ofList r.renamed

end Rename

/-- A rename that contradicts an earlier one. -/
structure Conflict where
  /-- The target recorded before. -/
  existing : Text
  /-- The contradicting rename. -/
  attempted : Rename
  deriving DecidableEq, Repr

/-- The wording of a conflict. -/
def Conflict.message (c : Conflict) : String :=
  let place :=
    match c.attempted.file with
    | some (f :: fs) => " (in " ++ String.ofList (f :: fs) ++ ")"
    | _ => ""
  "Conflicting rename for " ++ c.attempted.kind.word ++ " '" ++ String.ofList c.attempted.name
    ++ "'" ++ place ++ ": already renamed to '" ++ String.ofList c.existing
    ++ "', cannot rename to '" ++ String.ofList c.attempted.renamed ++ "'"

/-- The renames of a run. -/
structure Registry where
  /-- The renames, the oldest first. -/
  records : List Rename
  deriving DecidableEq, Repr

namespace Registry

/-- The registry at the start of a run. -/
def empty : Registry := ⟨[]⟩

/-- The number of renames. -/
def size (g : Registry) : Nat := g.records.length

/-- The rename of the symbol with this key. -/
def findKey? (g : Registry) (key : SymbolKind × Text) : Option Rename :=
  g.records.find? fun r => r.key = key

/-- The rename of a symbol. -/
def find? (g : Registry) (kind : SymbolKind) (name : Text) : Option Rename :=
  g.findKey? (kind, Name.key kind name)

/-- The new name of a symbol. -/
def lookup? (g : Registry) (kind : SymbolKind) (name : Text) : Option Text :=
  (g.find? kind name).map (·.renamed)

/-- Whether a symbol was renamed. -/
def contains (g : Registry) (kind : SymbolKind) (name : Text) : Bool :=
  (g.lookup? kind name).isSome

/-- Whether recording a rename adds it. -/
def isNew (g : Registry) (r : Rename) : Bool := (g.findKey? r.bare.key).isNone

/-- The registry after a rename. -/
def record (g : Registry) (r : Rename) : Except Conflict Registry :=
  match g.findKey? r.bare.key with
  | none => .ok ⟨g.records ++ [r.bare]⟩
  | some existing =>
    if existing.target = r.bare.target then .ok g else .error ⟨existing.renamed, r.bare⟩

/-- All renames, sorted. -/
def all (g : Registry) : List Rename := g.records.mergeSort Rename.listedBefore

/-- The renames of one kind, sorted. -/
def ofKind (g : Registry) (kind : SymbolKind) : List Rename := g.all.filter fun r => r.kind = kind

/-- The registry after some renames, and the conflict that stopped it. -/
def recordAll (g : Registry) : List Rename → Registry × Option Conflict
  | [] => (g, none)
  | r :: rs =>
    match g.record r with
    | .ok g' => g'.recordAll rs
    | .error c => (g, some c)

/-- The registry after the renames of another one, and the conflict that stopped it. -/
def merge (g other : Registry) : Registry × Option Conflict := g.recordAll other.all

/-- A symbol without a rename gets the one recorded. -/
theorem record_of_new {g : Registry} {r : Rename} (h : g.findKey? r.bare.key = none) :
    g.record r = .ok ⟨g.records ++ [r.bare]⟩ := by
  simp [record, h]

/-- A rename with the target of the earlier one changes nothing. -/
theorem record_of_confirmed {g : Registry} {r s : Rename} (h : g.findKey? r.bare.key = some s)
    (ht : s.target = r.bare.target) : g.record r = .ok g := by
  simp [record, h, ht]

/-- A rename with another target than the earlier one is refused. -/
theorem record_of_contradicted {g : Registry} {r s : Rename} (h : g.findKey? r.bare.key = some s)
    (ht : s.target ≠ r.bare.target) : g.record r = .error ⟨s.renamed, r.bare⟩ := by
  simp [record, h, ht]

end Registry

end PhpPrefixer
