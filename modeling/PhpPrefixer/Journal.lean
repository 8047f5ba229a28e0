import PhpPrefixer.Text

/-!
# The journal

What the program tells about its work: entries with a level, written to a channel. A journal keeps
the entries that reach its threshold, in the order they were written.
-/

namespace PhpPrefixer

/-- How serious an entry is. -/
inductive Level where
  /-- For those who look for a fault. -/
  | debug
  /-- The course of the work. -/
  | info
  /-- Something was left undone. -/
  | warning
  /-- Something failed. -/
  | error
  /-- The work cannot go on. -/
  | critical
  deriving DecidableEq, Repr

namespace Level

/-- The name of a level. -/
def name : Level → String
  | debug => "DEBUG"
  | info => "INFO"
  | warning => "WARNING"
  | error => "ERROR"
  | critical => "CRITICAL"

/-- Every level, the least serious first. -/
def all : List Level := [debug, info, warning, error, critical]

/-- The place of a level among the others. -/
def rank : Level → Nat
  | debug => 10
  | info => 20
  | warning => 30
  | error => 40
  | critical => 50

/-- The capital of a letter as far as level names are concerned; the dotless i has the capital I. -/
def capital (c : Char) : Char := if c = 'ı' then 'I' else c.toUpper

/-- The level with this name, in any case. -/
def ofText? (t : Text) : Option Level := all.find? fun level => level.name.toList = t.map capital

/-- The names of all levels, as they are listed in messages. -/
def namesListed : String := "['DEBUG', 'INFO', 'WARNING', 'ERROR', 'CRITICAL']"

end Level

/-- Where an entry is written. -/
inductive Channel where
  /-- Loading of exclusion rules. -/
  | whitelist
  /-- New renames. -/
  | registry
  /-- Reading and checking the configuration. -/
  | config
  /-- Work on many files. -/
  | batch
  /-- The walk through a file. -/
  | traversal
  /-- Declarations that cannot be moved. -/
  | declarations
  /-- Namespaces and imports. -/
  | namespaces
  /-- Preparation of a walk. -/
  | preparation
  /-- Preparation of a run. -/
  | setup
  /-- Patching. -/
  | patching
  /-- The stages of a file. -/
  | files
  deriving DecidableEq, Repr

/-- The name of a channel. -/
def Channel.name : Channel → String
  | whitelist => "phpscoper.core.whitelist"
  | registry => "phpscoper.core.symbol_registry"
  | config => "phpscoper.core.config"
  | batch => "phpscoper.core.batch"
  | traversal => "phpscoper.processors.node_traverser"
  | declarations => "phpscoper.processors.prefixing_visitor"
  | namespaces => "phpscoper.processors.namespace_visitors"
  | preparation => "phpscoper.processors.traverser_factory"
  | setup => "phpscoper.scoper.factory"
  | patching => "phpscoper.scoper.patch_scoper"
  | files => "phpscoper.scoper.php_scoper"

/-- One entry. -/
structure Entry where
  /-- How serious it is. -/
  level : Level
  /-- Where it is written. -/
  channel : Channel
  /-- What it says. -/
  message : String
  deriving DecidableEq, Repr

/-- The entries kept so far. -/
structure Journal where
  /-- The least level that is kept. -/
  threshold : Level
  /-- The entries, the oldest first. -/
  entries : List Entry
  deriving DecidableEq, Repr

namespace Journal

/-- An empty journal. -/
def withThreshold (threshold : Level) : Journal := ⟨threshold, []⟩

/-- The journal after an entry, which is kept when it reaches the threshold. -/
def write (j : Journal) (e : Entry) : Journal :=
  if j.threshold.rank ≤ e.level.rank then { j with entries := j.entries ++ [e] } else j

/-- The journal without its entries. -/
def cleared (j : Journal) : Journal := { j with entries := [] }

end Journal

end PhpPrefixer
