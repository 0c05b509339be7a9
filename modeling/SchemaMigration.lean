import SchemaMigration.ChangeSet.Edit
import SchemaMigration.Main
import SchemaMigration.Proofs.Compile
import SchemaMigration.Proofs.KeyChecking
import SchemaMigration.Proofs.Schema
import SchemaMigration.Proofs.TableRun
import SchemaMigration.Proofs.Validate
import SchemaMigration.Proofs.Execution
import SchemaMigration.Proofs.Outcome
import SchemaMigration.Proofs.Accounting
import SchemaMigration.Proofs.KeyAccounting
import SchemaMigration.Proofs.ChangeSetText
import SchemaMigration.Proofs.PlanText
import SchemaMigration.Proofs.ScriptText
import SchemaMigration.Proofs.Restriction
import SchemaMigration.Proofs.Reversal
import SchemaMigration.Proofs.CommandLine
import SchemaMigration.Proofs.Json.Syntax
import SchemaMigration.Proofs.Json.Skip
import SchemaMigration.Proofs.Json.Agreement
import SchemaMigration.Proofs.Json.Spelling
import SchemaMigration.Proofs.Json.RecordText
import SchemaMigration.Proofs.ChangeSetSpelling
import SchemaMigration.Proofs.InsertionOrder
import SchemaMigration.Proofs.FirstFault
import SchemaMigration.Proofs.Json.Locality
import SchemaMigration.Proofs.Json.LocalReaders
import SchemaMigration.Proofs.Json.LocalRecords
import SchemaMigration.Proofs.MapReading
import SchemaMigration.Proofs.Json.PartialRecord
import SchemaMigration.Proofs.Json.SourceText
import SchemaMigration.Proofs.MovedColumns
import SchemaMigration.Proofs.Json.Grammar
import SchemaMigration.Proofs.Json.TakenApart
import SchemaMigration.Proofs.EditOrder
import SchemaMigration.Proofs.Dependence
import SchemaMigration.Proofs.Spacing
import SchemaMigration.Proofs.Directions
import SchemaMigration.Proofs.OperationLines
import SchemaMigration.Proofs.StatementCount
import SchemaMigration.Proofs.CheckReport
import SchemaMigration.Proofs.RegistryDocument
import SchemaMigration.Proofs.Interpolated
import SchemaMigration.Proofs.KeyNames
import SchemaMigration.Proofs.Nesting
