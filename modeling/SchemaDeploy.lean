import SchemaDeploy.Change.Deploy
import SchemaDeploy.Change.Export
import SchemaDeploy.Change.Inventory
import SchemaDeploy.Change.Release
import SchemaDeploy.Change.Rollback
import SchemaDeploy.Change.Test
import SchemaDeploy.Change.Verify
import SchemaDeploy.Command.Arguments
import SchemaDeploy.Command.Run
import SchemaDeploy.Config.Basic
import SchemaDeploy.Config.Yaml
import SchemaDeploy.Dependency.Graph
import SchemaDeploy.Dependency.Inference
import SchemaDeploy.Error
import SchemaDeploy.Json
import SchemaDeploy.Keyed
import SchemaDeploy.Main
import SchemaDeploy.Parameters
import SchemaDeploy.Project.Basic
import SchemaDeploy.Project.FileTree
import SchemaDeploy.Project.Source
import SchemaDeploy.Project.Workspace
import SchemaDeploy.Proofs.AddedMigrations
import SchemaDeploy.Proofs.AddedObjects
import SchemaDeploy.Proofs.ByteLiterals
import SchemaDeploy.Proofs.ByteOffsets
import SchemaDeploy.Proofs.ByteReferences
import SchemaDeploy.Proofs.ByteScans
import SchemaDeploy.Proofs.ByteSearch
import SchemaDeploy.Proofs.ClosedText
import SchemaDeploy.Proofs.ComparedViews
import SchemaDeploy.Proofs.CyclicGraphs
import SchemaDeploy.Proofs.DecodedDefinitions
import SchemaDeploy.Proofs.DefinedNames
import SchemaDeploy.Proofs.DefinitionHeads
import SchemaDeploy.Proofs.DeletedComments
import SchemaDeploy.Proofs.DeployRun
import SchemaDeploy.Proofs.DroppedQualifiers
import SchemaDeploy.Proofs.ExportedHeads
import SchemaDeploy.Proofs.ExportedLiterals
import SchemaDeploy.Proofs.ExportedRows
import SchemaDeploy.Proofs.ExportedScripts
import SchemaDeploy.Proofs.FoldedText
import SchemaDeploy.Proofs.HeaderLines
import SchemaDeploy.Proofs.HiddenText
import SchemaDeploy.Proofs.IgnoredHeaders
import SchemaDeploy.Proofs.ImmutableMigrations
import SchemaDeploy.Proofs.JsonRoundTrip
import SchemaDeploy.Proofs.KeyedLookup
import SchemaDeploy.Proofs.LanguageClauses
import SchemaDeploy.Proofs.LatestMigrations
import SchemaDeploy.Proofs.ListedDumps
import SchemaDeploy.Proofs.ListedScripts
import SchemaDeploy.Proofs.LiveObjects
import SchemaDeploy.Proofs.LiveRecords
import SchemaDeploy.Proofs.LoweredText
import SchemaDeploy.Proofs.MigrationGrammar
import SchemaDeploy.Proofs.MockedQueries
import SchemaDeploy.Proofs.ObjectEdges
import SchemaDeploy.Proofs.OperationFrames
import SchemaDeploy.Proofs.OperationLog
import SchemaDeploy.Proofs.OverrideNames
import SchemaDeploy.Proofs.PartialGraph
import SchemaDeploy.Proofs.PlacedObjects
import SchemaDeploy.Proofs.Placeholders
import SchemaDeploy.Proofs.PlannedDeploy
import SchemaDeploy.Proofs.QueryLiterals
import SchemaDeploy.Proofs.RebuiltMigrations
import SchemaDeploy.Proofs.RecordedMigrations
import SchemaDeploy.Proofs.ReferencePlaces
import SchemaDeploy.Proofs.RejoinedUnits
import SchemaDeploy.Proofs.RemovedComments
import SchemaDeploy.Proofs.RepeatedDeploy
import SchemaDeploy.Proofs.RepeatedRemoval
import SchemaDeploy.Proofs.RepeatedSequencing
import SchemaDeploy.Proofs.ReplacedPieces
import SchemaDeploy.Proofs.Replacements
import SchemaDeploy.Proofs.RepositoryCalls
import SchemaDeploy.Proofs.RepositorySteps
import SchemaDeploy.Proofs.RespacedBodies
import SchemaDeploy.Proofs.RespacedText
import SchemaDeploy.Proofs.Restarts
import SchemaDeploy.Proofs.ResumedDeploy
import SchemaDeploy.Proofs.RollbackEffect
import SchemaDeploy.Proofs.RollbackOverrides
import SchemaDeploy.Proofs.RollbackRun
import SchemaDeploy.Proofs.RoutineHeaders
import SchemaDeploy.Proofs.RoutineSpellings
import SchemaDeploy.Proofs.SavedStates
import SchemaDeploy.Proofs.Sequencing
import SchemaDeploy.Proofs.SharedKeys
import SchemaDeploy.Proofs.ShiftedRuns
import SchemaDeploy.Proofs.SkippedDependents
import SchemaDeploy.Proofs.SolidText
import SchemaDeploy.Proofs.SpelledReferences
import SchemaDeploy.Proofs.StableOrder
import SchemaDeploy.Proofs.StatementPieces
import SchemaDeploy.Proofs.Substitutions
import SchemaDeploy.Proofs.TemplateRoundTrip
import SchemaDeploy.Proofs.TemplatedNames
import SchemaDeploy.Proofs.TrimmedText
import SchemaDeploy.Proofs.Turns
import SchemaDeploy.Proofs.UnitTexts
import SchemaDeploy.Proofs.UnsourcedObjects
import SchemaDeploy.Proofs.UpperText
import SchemaDeploy.Proofs.Verification
import SchemaDeploy.Proofs.VerifiedDeploy
import SchemaDeploy.Proofs.VerifiedObjects
import SchemaDeploy.Proofs.ViewHeaders
import SchemaDeploy.Proofs.Wiring
import SchemaDeploy.Proofs.WordTemplates
import SchemaDeploy.Proofs.WrittenScripts
import SchemaDeploy.Proofs.WrittenTrees
import SchemaDeploy.Proofs.WrittenUnits
import SchemaDeploy.Properties
import SchemaDeploy.Query.Alias
import SchemaDeploy.Query.Assertion
import SchemaDeploy.Query.Basic
import SchemaDeploy.Query.Operator
import SchemaDeploy.Query.Parser
import SchemaDeploy.Query.Reader
import SchemaDeploy.Query.Token
import SchemaDeploy.Script.Basic
import SchemaDeploy.Script.Body
import SchemaDeploy.Script.MigrationFile
import SchemaDeploy.Script.ObjectType
import SchemaDeploy.Script.Rows
import SchemaDeploy.Sql.Create
import SchemaDeploy.Sql.Literal
import SchemaDeploy.Sql.Reference
import SchemaDeploy.Sql.Scan
import SchemaDeploy.Sql.Statement
import SchemaDeploy.Store.Record
import SchemaDeploy.Store.Repository
import SchemaDeploy.Store.StateFile
import SchemaDeploy.Text.Blank
import SchemaDeploy.Text.Case
import SchemaDeploy.Text.CaseTable
import SchemaDeploy.Text.Digest
import SchemaDeploy.Text.Encoding
import SchemaDeploy.Text.Search
import SchemaDeploy.Text.Word
import SchemaDeploy.Text.WordTable
