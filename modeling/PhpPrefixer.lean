import PhpPrefixer.Batch
import PhpPrefixer.Classifier
import PhpPrefixer.Config
import PhpPrefixer.ConfigError
import PhpPrefixer.Edit
import PhpPrefixer.Journal
import PhpPrefixer.Lexical
import PhpPrefixer.Literal
import PhpPrefixer.LogTree
import PhpPrefixer.Name
import PhpPrefixer.NativeSymbols
import PhpPrefixer.NativeSymbols.Tables
import PhpPrefixer.Node
import PhpPrefixer.Patcher
import PhpPrefixer.Path
import PhpPrefixer.Pattern
import PhpPrefixer.Pattern.Fault
import PhpPrefixer.Pattern.Matching
import PhpPrefixer.Pattern.Reader
import PhpPrefixer.Pattern.Regex
import PhpPrefixer.Plan
import PhpPrefixer.Prefix
import PhpPrefixer.Prefixer
import PhpPrefixer.Prefixing.Arguments
import PhpPrefixer.Prefixing.Basic
import PhpPrefixer.Prefixing.Embedded
import PhpPrefixer.Prefixing.Imports
import PhpPrefixer.Prefixing.Literals
import PhpPrefixer.Prefixing.Names
import PhpPrefixer.Prefixing.Namespaces
import PhpPrefixer.Proofs.Accounting
import PhpPrefixer.Proofs.Agreement
import PhpPrefixer.Proofs.AlreadyMoved
import PhpPrefixer.Proofs.AppendOnly
import PhpPrefixer.Proofs.BatchReports
import PhpPrefixer.Proofs.CharacterEdits
import PhpPrefixer.Proofs.CheckedPrefixes
import PhpPrefixer.Proofs.Conduct
import PhpPrefixer.Proofs.CoupledFiles
import PhpPrefixer.Proofs.CoupledWalk
import PhpPrefixer.Proofs.Coupling
import PhpPrefixer.Proofs.Crews
import PhpPrefixer.Proofs.Decisions
import PhpPrefixer.Proofs.Declarations
import PhpPrefixer.Proofs.Diagnostics
import PhpPrefixer.Proofs.DocumentOrder
import PhpPrefixer.Proofs.EditSites
import PhpPrefixer.Proofs.EmbeddedCode
import PhpPrefixer.Proofs.ExcludedNamespaces
import PhpPrefixer.Proofs.Exclusion
import PhpPrefixer.Proofs.FailedFiles
import PhpPrefixer.Proofs.FirstLine
import PhpPrefixer.Proofs.GlobalCode
import PhpPrefixer.Proofs.GroupImports
import PhpPrefixer.Proofs.HandFiles
import PhpPrefixer.Proofs.ImportLists
import PhpPrefixer.Proofs.ImportReading
import PhpPrefixer.Proofs.ImportedQualifiers
import PhpPrefixer.Proofs.ImportsAfter
import PhpPrefixer.Proofs.Interleaving
import PhpPrefixer.Proofs.Layout
import PhpPrefixer.Proofs.Ledger
import PhpPrefixer.Proofs.Likeness
import PhpPrefixer.Proofs.Listing
import PhpPrefixer.Proofs.LiteralStyles
import PhpPrefixer.Proofs.LowerCase
import PhpPrefixer.Proofs.Merging
import PhpPrefixer.Proofs.MovedOnce
import PhpPrefixer.Proofs.NameAlgebra
import PhpPrefixer.Proofs.NameGrammar
import PhpPrefixer.Proofs.NameLaws
import PhpPrefixer.Proofs.NamespaceBlocks
import PhpPrefixer.Proofs.NativeNames
import PhpPrefixer.Proofs.NoOverlap
import PhpPrefixer.Proofs.OnlyNames
import PhpPrefixer.Proofs.PlanRuns
import PhpPrefixer.Proofs.PrefixWords
import PhpPrefixer.Proofs.Queueing
import PhpPrefixer.Proofs.Quotes
import PhpPrefixer.Proofs.Racing
import PhpPrefixer.Proofs.Reach
import PhpPrefixer.Proofs.RecordedRenames
import PhpPrefixer.Proofs.RecordingWalk
import PhpPrefixer.Proofs.RecursiveWalk
import PhpPrefixer.Proofs.References
import PhpPrefixer.Proofs.Regions
import PhpPrefixer.Proofs.Remainder
import PhpPrefixer.Proofs.RenameLists
import PhpPrefixer.Proofs.Renames
import PhpPrefixer.Proofs.Resolution
import PhpPrefixer.Proofs.RulesInForce
import PhpPrefixer.Proofs.Scheduling
import PhpPrefixer.Proofs.SecondRun
import PhpPrefixer.Proofs.SecondVisit
import PhpPrefixer.Proofs.SettledCase
import PhpPrefixer.Proofs.Shifting
import PhpPrefixer.Proofs.Splicing
import PhpPrefixer.Proofs.StableSort
import PhpPrefixer.Proofs.Stages
import PhpPrefixer.Proofs.SymbolIdentity
import PhpPrefixer.Proofs.Texts
import PhpPrefixer.Proofs.Trees
import PhpPrefixer.Proofs.Turns
import PhpPrefixer.Proofs.Weaving
import PhpPrefixer.Proofs.WrittenRules
import PhpPrefixer.Recognition
import PhpPrefixer.Reference
import PhpPrefixer.Registry
import PhpPrefixer.Source
import PhpPrefixer.SymbolKind
import PhpPrefixer.SyntaxError
import PhpPrefixer.Text
import PhpPrefixer.Text.Blank
import PhpPrefixer.Text.Case
import PhpPrefixer.Text.CaseTable
import PhpPrefixer.Text.CharRange
import PhpPrefixer.Text.Identifier
import PhpPrefixer.Text.IdentifierTable
import PhpPrefixer.Text.PrintableTable
import PhpPrefixer.Text.Quoted
import PhpPrefixer.Text.Utf8
import PhpPrefixer.Text.Word
import PhpPrefixer.Text.WordTable
import PhpPrefixer.Value
import PhpPrefixer.Walk
import PhpPrefixer.Walk.Trace
import PhpPrefixer.Whitelist
import PhpPrefixer.WhitelistFields
