import ArithTree.Config.Writer
import ArithTree.Expr
import ArithTree.Main
import ArithTree.Proofs.FoldedEvaluation
import ArithTree.Proofs.FoldedNodes
import ArithTree.Proofs.Nodes
import ArithTree.Proofs.Shrinking
import ArithTree.Proofs.ConfiguredPipeline
import ArithTree.Proofs.CommandLine
import ArithTree.Proofs.Transform
import ArithTree.Proofs.PrintedValue
import ArithTree.Proofs.Json.Token
import ArithTree.Proofs.Measures
import ArithTree.Proofs.Json.RoundTrip
import ArithTree.Proofs.Json.Reading
import ArithTree.Proofs.Environment
import ArithTree.Proofs.Toml.Token
import ArithTree.Proofs.Toml.Scalar
import ArithTree.Proofs.Toml.Lines
import ArithTree.Proofs.Toml.Assembly
import ArithTree.Proofs.Config.Decoding
import ArithTree.Proofs.Config.RoundTrip
import ArithTree.Proofs.Toml.Distinct
import ArithTree.Proofs.Config.Acceptance
import ArithTree.Proofs.FirstFault
import ArithTree.Proofs.Flags
import ArithTree.Proofs.Batch
import ArithTree.Proofs.ExactValue
import ArithTree.Proofs.Variables
import ArithTree.Proofs.Bindings
import ArithTree.Proofs.PassTrace
import ArithTree.Proofs.Composition
import ArithTree.Proofs.Places
import ArithTree.Proofs.EvaluationTrace
import ArithTree.Proofs.Shapes
import ArithTree.Proofs.Quoting
import ArithTree.Proofs.Readings
import ArithTree.Proofs.Details
import ArithTree.Proofs.Walks
