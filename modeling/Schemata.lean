import Schemata.Behavior
import Schemata.Build.Column
import Schemata.Build.Schema
import Schemata.Build.Table
import Schemata.Change
import Schemata.Cli
import Schemata.Cli.Directory
import Schemata.Cli.Exit
import Schemata.Column
import Schemata.ColumnType
import Schemata.Config
import Schemata.Database
import Schemata.Declaration
import Schemata.Declaration.Record
import Schemata.Dictionary
import Schemata.Domain
import Schemata.Dump
import Schemata.Error
import Schemata.Event
import Schemata.FileFault
import Schemata.Finalize
import Schemata.Finalize.BackEdge
import Schemata.Finalize.HeavyIndex
import Schemata.Finalize.ImplicitKey
import Schemata.Finalize.Settle
import Schemata.ForeignKey
import Schemata.Index
import Schemata.Json.Basic
import Schemata.Json.Double
import Schemata.Json.Fault
import Schemata.Json.Lexeme
import Schemata.Json.NumberText
import Schemata.Json.Printer
import Schemata.Json.Reader
import Schemata.Json.Shape
import Schemata.Json.StringText
import Schemata.Lookup
import Schemata.Main
import Schemata.Naming
import Schemata.Path
import Schemata.Platform
import Schemata.Plugin
import Schemata.Plugin.Archivable
import Schemata.Plugin.Builtin
import Schemata.Plugin.Timestampable
import Schemata.Schema
import Schemata.Script
import Schemata.Script.Step
import Schemata.Script.Template
import Schemata.Session
import Schemata.Setting
import Schemata.Table
import Schemata.Text.Blank
import Schemata.Text.Case
import Schemata.Text.CaseTable
import Schemata.Text.CasedTable
import Schemata.Text.Cluster
import Schemata.Text.ClusterTable
import Schemata.Text.ExtendTable
import Schemata.Text.Quoted
import Schemata.Text.Ranges
import Schemata.Text.UnprintableTable
import Schemata.Text.Words
import Schemata.Vendor
import Schemata.Worklist
import Schemata.Proofs.Change
import Schemata.Proofs.Lookup
import Schemata.Proofs.Growth
import Schemata.Proofs.TableEdits
import Schemata.Proofs.Names
import Schemata.Proofs.DatabaseGrowth
import Schemata.Proofs.BackEdges
import Schemata.Proofs.TableStep
import Schemata.Proofs.Complete
import Schemata.Proofs.Finalized
import Schemata.Proofs.Stable
import Schemata.Proofs.Worklist
import Schemata.Proofs.Settle
import Schemata.Proofs.Hooks
import Schemata.Proofs.Finalize
import Schemata.Proofs.References
import Schemata.Proofs.Marks
import Schemata.Proofs.RunOnce
import Schemata.Proofs.Idempotence
import Schemata.Proofs.Blind
import Schemata.Proofs.Alone
import Schemata.Proofs.Reached
import Schemata.Proofs.Reorder
import Schemata.Proofs.TableOrder
import Schemata.Proofs.Trail
import Schemata.Proofs.Steps
import Schemata.Proofs.Origins
import Schemata.Proofs.Archive
import Schemata.Proofs.Failures
import Schemata.Proofs.Paths
import Schemata.Proofs.Visits
import Schemata.Proofs.Asked
import Schemata.Proofs.Includes
import Schemata.Proofs.Acyclic
import Schemata.Proofs.Declared
import Schemata.Proofs.Arrivals
import Schemata.Proofs.Tour
import Schemata.Proofs.Assembly
import Schemata.Proofs.Emittable
import Schemata.Proofs.WellFormed
import Schemata.Proofs.Consistency
import Schemata.Proofs.Operations
import Schemata.Proofs.Merge
import Schemata.Proofs.WellBuilt
import Schemata.Proofs.Checks
import Schemata.Proofs.KeyChecks
import Schemata.Proofs.FailureCondition
import Schemata.Proofs.CodeNames
import Schemata.Proofs.Shorthand
import Schemata.Proofs.Spellings
import Schemata.Proofs.Coverage
import Schemata.Proofs.Respelling
import Schemata.Proofs.IncludeTargets
import Schemata.Proofs.Revisits
import Schemata.Proofs.OneSpelling
import Schemata.Proofs.Rounds
import Schemata.Proofs.HeavyIndices
import Schemata.Proofs.KeyIndices
import Schemata.Proofs.ImplicitKeys
import Schemata.Proofs.Duplicate
import Schemata.Proofs.ArchiveHook
import Schemata.Proofs.Conservation
import Schemata.Proofs.GeneratedNames
import Schemata.Proofs.FinalizedNames
import Schemata.Proofs.NameClashes
import Schemata.Proofs.ForcedIndices
import Schemata.Proofs.Spread
import Schemata.Proofs.Join
import Schemata.InMemory
import Schemata.Proofs.Carried
import Schemata.Proofs.Location
import Schemata.Proofs.StudlyCase
import Schemata.Proofs.RelationNames
import Schemata.Proofs.Served
import Schemata.Proofs.GeneratedCode
import Schemata.Proofs.Records
import Schemata.Proofs.RecordEdits
import Schemata.Proofs.Domains
import Schemata.Proofs.Inlining
import Schemata.Proofs.DomainFree
import Schemata.Proofs.Cuts
import Schemata.Proofs.Likeness
import Schemata.Proofs.DumpPieces
import Schemata.Proofs.DumpLines
import Schemata.Proofs.Dumps
