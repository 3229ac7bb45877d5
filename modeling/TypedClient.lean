import TypedClient.Command.FileTree
import TypedClient.LogFilter
import TypedClient.Main
import TypedClient.Proofs.Fragment.Coverage
import TypedClient.Proofs.Fragment.Nullability
import TypedClient.Proofs.Operation.Bindings
import TypedClient.Proofs.Operation.Declared
import TypedClient.Proofs.Registry.Order
import TypedClient.Proofs.Registry.Sharing
import TypedClient.Proofs.Schema.Inheritance
import TypedClient.Proofs.Swagger.Sections
import TypedClient.Proofs.Operation.Promotion
import TypedClient.Proofs.Schema.Distinct
import TypedClient.Proofs.Operation.Parameters
import TypedClient.Proofs.Fragment.OwnNames
import TypedClient.Proofs.Swagger.Parameters
import TypedClient.Proofs.Operation.Appended
import TypedClient.Proofs.Operation.PathOrder
import TypedClient.Proofs.Command.Failure
import TypedClient.Proofs.Fragment.Flavors
import TypedClient.Proofs.Fragment.NullableCycles
import TypedClient.Proofs.Operation.ModuleNames
import TypedClient.Proofs.Schema.Passes
import TypedClient.Proofs.Schema.Resolution
import TypedClient.Proofs.Schema.Required
import TypedClient.Proofs.Fragment.NullableUnion
import TypedClient.Proofs.Registry.Provenance
import TypedClient.Proofs.Registry.Repetition
import TypedClient.Proofs.Registry.Targets
import TypedClient.Proofs.Operation.PathTemplate
import TypedClient.Proofs.Operation.UniqueIds
import TypedClient.Proofs.Operation.ArgumentNames
import TypedClient.Proofs.Fragment.LiteralBranches
import TypedClient.Proofs.Reference.Writing
import TypedClient.Proofs.Operation.Statuses
import TypedClient.Proofs.Client.Agreement
import TypedClient.Proofs.Text.Pieces
import TypedClient.Proofs.Text.StringLiteral
import TypedClient.Proofs.Client.Literals
import TypedClient.Proofs.Reference.Reading
import TypedClient.Proofs.Swagger.Merging
import TypedClient.Proofs.Json.Distinct
import TypedClient.Proofs.Swagger.Distinct
import TypedClient.Proofs.Swagger.InstanceData
import TypedClient.Proofs.Text.Comment
import TypedClient.Proofs.Swagger.ParameterReferences
import TypedClient.Proofs.Swagger.Order
import TypedClient.Proofs.Swagger.Nullable
import TypedClient.Proofs.Text.CamelCase
import TypedClient.Proofs.Fragment.NumberBounds
