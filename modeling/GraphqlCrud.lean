import GraphqlCrud.Main
import GraphqlCrud.Proofs.Compilation.Acceptance
import GraphqlCrud.Proofs.Output.InputConstants
import GraphqlCrud.Proofs.Path.Parts
import GraphqlCrud.Proofs.Plan.Survival
import GraphqlCrud.Proofs.Inputs.UsedNames
import GraphqlCrud.Proofs.Resolver.References
import GraphqlCrud.Proofs.Script.Code
import GraphqlCrud.Proofs.Script.Declarations
import GraphqlCrud.Storage.Disk
import GraphqlCrud.Text.Position
import GraphqlCrud.Proofs.Output.Artifacts
import GraphqlCrud.Proofs.Output.Descriptors
import GraphqlCrud.Proofs.Output.DescriptorEntries
import GraphqlCrud.Proofs.Output.Exports
import GraphqlCrud.Proofs.Output.Symbols
import GraphqlCrud.Proofs.Output.Accesses
import GraphqlCrud.Proofs.Output.ReferentialClosure
import GraphqlCrud.Proofs.Output.ResolverArguments
import GraphqlCrud.Proofs.Output.InputReferences
import GraphqlCrud.Proofs.Output.InputClosure
import GraphqlCrud.Proofs.Compilation.Analysis
import GraphqlCrud.Proofs.Output.Placement
import GraphqlCrud.Proofs.Plan.Filters
import GraphqlCrud.Proofs.Layout.Hanging
import GraphqlCrud.Proofs.Script.Templates
import GraphqlCrud.Proofs.DocComment
import GraphqlCrud.Proofs.Output.Descriptions
import GraphqlCrud.Proofs.Output.Regeneration
import GraphqlCrud.Proofs.Command.DryRun
import GraphqlCrud.Proofs.Command.Agreement
import GraphqlCrud.Proofs.Output.BuilderImports
import GraphqlCrud.Proofs.Output.RegistrationBindings
import GraphqlCrud.Proofs.Output.Independence
import GraphqlCrud.Proofs.Compilation.Schedule
import GraphqlCrud.Proofs.Schema.Tolerance
import GraphqlCrud.Proofs.Inputs.Selection
import GraphqlCrud.Proofs.Inputs.LongestName
import GraphqlCrud.Proofs.Inputs.Lowering
import GraphqlCrud.Proofs.Config.Acceptance
import GraphqlCrud.Proofs.DocComment.Cleanup
import GraphqlCrud.Proofs.Inputs.Exclusion
import GraphqlCrud.Proofs.Output.Markers
import GraphqlCrud.Proofs.Script.LiteralValues
import GraphqlCrud.Proofs.Script.PrintedForms
import GraphqlCrud.Proofs.Inputs.KeyFields
import GraphqlCrud.Proofs.Output.ScalarDeclarations
import GraphqlCrud.Proofs.Script.Embedding
import GraphqlCrud.Proofs.Lint.UnusedEntries
import GraphqlCrud.Proofs.Output.FieldsSection
import GraphqlCrud.Proofs.Output.Separation
import GraphqlCrud.Proofs.Schema.MainType
import GraphqlCrud.Proofs.Layout.Indentation
import GraphqlCrud.Proofs.Script.Spacing
import GraphqlCrud.Proofs.Command.Cleaning
import GraphqlCrud.Proofs.Text.Numbering
