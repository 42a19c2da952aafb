import Triglot.Text.Case
import Triglot.Text.Shown
import Triglot.Json.Reader
import Triglot.Json.Printer
import Triglot.Model.Decode
import Triglot.Model.Encode
import Triglot.Namespace.Scope
import Triglot.Numbering
import Triglot.TypeGraph
import Triglot.Command.Run
import Triglot.Main
import Triglot.Proofs.Outcome
import Triglot.Proofs.Symbol.Conflict
import Triglot.Proofs.Validation
import Triglot.Proofs.Numbering
import Triglot.Proofs.FieldNumbers
import Triglot.Proofs.Proto.Success
import Triglot.Proofs.Graphql.Arena
import Triglot.Proofs.Graphql.Success
import Triglot.Proofs.OpenApi.Success
import Triglot.Proofs.Generator
import Triglot.Proofs.OpenApi.Closure
import Triglot.Proofs.Graphql.Known
import Triglot.Proofs.Graphql.Closure
import Triglot.Proofs.Proto.Closure
import Triglot.Proofs.Graphql.Origin
import Triglot.Proofs.Graphql.Names
import Triglot.Proofs.Graphql.Trace
import Triglot.Proofs.Search
import Triglot.Proofs.TypeGraph
import Triglot.Proofs.Usage
import Triglot.Proofs.Graphql.Input
import Triglot.Proofs.Graphql.ReadBack
import Triglot.Proofs.Graphql.Interning
import Triglot.Proofs.Graphql.Stable
import Triglot.Proofs.Namespace.Gathering
import Triglot.Proofs.Namespace.Partition
import Triglot.Proofs.Proto.Imports
import Triglot.Proofs.Proto.Layout
import Triglot.Proofs.Proto.EnumNumbers
import Triglot.Proofs.Symbol.Registration
import Triglot.Proofs.Json.Decode
import Triglot.Proofs.Model.RoundTrip
import Triglot.Proofs.Symbol.Spelling
import Triglot.Proofs.Symbol.Resolution
import Triglot.Proofs.Symbol.Order
import Triglot.Proofs.Symbol.OwnNames
import Triglot.Proofs.Union.Rendering
import Triglot.Proofs.Union.Distinct
import Triglot.Proofs.Denotation
import Triglot.Proofs.Placeholder
import Triglot.Proofs.Entries
import Triglot.Proofs.Output.Run
import Triglot.Proofs.Namespace.ImportPath
import Triglot.Proofs.Output.Retention
import Triglot.Proofs.Text.Pieces
import Triglot.Proofs.Workspace.Tree
import Triglot.Proofs.Workspace.Writing
import Triglot.Proofs.Workspace.Inside
import Triglot.Proofs.Workspace.Load
import Triglot.Proofs.Command.Generate
import Triglot.Proofs.OpenApi.Routes
import Triglot.Proofs.Graphql.Roots
import Triglot.Proofs.OpenApi.Properties
import Triglot.Proofs.Proto.Comments
import Triglot.Proofs.Number.Whole
import Triglot.Proofs.OpenApi.Defaults
import Triglot.Proofs.Proto.Bounds
import Triglot.Proofs.Workspace.Merging
import Triglot.Proofs.Graphql.Literals
import Triglot.Proofs.Model.Signature
import Triglot.Proofs.Text.Quoting
import Triglot.Proofs.OpenApi.PathTemplate
