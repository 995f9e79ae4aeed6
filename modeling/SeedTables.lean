import SeedTables.CommandLine.Command
import SeedTables.Main
import SeedTables.Proofs.CompactText
import SeedTables.Proofs.DeclaredReferences
import SeedTables.Proofs.DeletedRejections
import SeedTables.Proofs.DocumentGrammar
import SeedTables.Proofs.DocumentOrder
import SeedTables.Proofs.DryRun
import SeedTables.Proofs.ExecutionOrder
import SeedTables.Proofs.ExportFiles
import SeedTables.Proofs.GarbledDocuments
import SeedTables.Proofs.NumberCells
import SeedTables.Proofs.PlanContents
import SeedTables.Proofs.PolicyAgreement
import SeedTables.Proofs.SessionRecord
import SeedTables.Proofs.StatementText
import SeedTables.Proofs.FirstFault
import SeedTables.Proofs.CompiledStatements
import SeedTables.Proofs.ByteOrder
import SeedTables.Proofs.ListedDirectory
import SeedTables.Proofs.SchemaFiles
import SeedTables.Proofs.IgnoredEntries
import SeedTables.Proofs.MissingDirectory
import SeedTables.Proofs.OptionEffects
import SeedTables.Proofs.BaseName
import SeedTables.Proofs.RetypedSchema
