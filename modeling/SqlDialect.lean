import SqlDialect.Main
import SqlDialect.Proofs.CommandLine.Run
import SqlDialect.Proofs.ControlFlow.EmptyStatement
import SqlDialect.Proofs.ControlFlow.Flattened
import SqlDialect.Proofs.Declaration.Consolidate
import SqlDialect.Proofs.ErrorHandling.Attempt
import SqlDialect.Proofs.ErrorHandling.Raised
import SqlDialect.Proofs.Json.Reread
import SqlDialect.Proofs.Sexpr.Failure
import SqlDialect.Proofs.Terminator.Repeated
import SqlDialect.Proofs.Warning.Converted
import SqlDialect.Proofs.Wording.Rename
import SqlDialect.Proofs.Wrapping.Shaping
import SqlDialect.Proofs.TableVariable.Assignment
import SqlDialect.Proofs.FunctionCall.Extraction
import SqlDialect.Proofs.FunctionCall.Overlay
import SqlDialect.Proofs.StringAggregate.Ordering
import SqlDialect.Proofs.FunctionCall.Nested
import SqlDialect.Proofs.Wording.Punctuation
import SqlDialect.Proofs.Forest.Attachment
import SqlDialect.Proofs.Conversion.Duplicate
import SqlDialect.Proofs.Conversion.Traversal
import SqlDialect.Proofs.Forest.Neighbours
import SqlDialect.Proofs.SyntaxTree.Diagram
import SqlDialect.Proofs.ProcedureCall.OutputParameters
