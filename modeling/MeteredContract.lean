import MeteredContract.Admission
import MeteredContract.Chain
import MeteredContract.Contract.Arguments
import MeteredContract.Contract.Deploy
import MeteredContract.Contract.Dispatch
import MeteredContract.Datatype
import MeteredContract.Eval.Atom
import MeteredContract.Eval.Expr
import MeteredContract.Eval.Run
import MeteredContract.Eval.Session
import MeteredContract.Eval.Stmt
import MeteredContract.Fault.Basic
import MeteredContract.Fault.Message
import MeteredContract.Fault.Trail
import MeteredContract.FixedInt
import MeteredContract.Gas.Charge
import MeteredContract.Gas.Meter
import MeteredContract.Gas.Price
import MeteredContract.Gas.Resolve
import MeteredContract.Gas.Size
import MeteredContract.IntTy
import MeteredContract.Primitive.Basic
import MeteredContract.Primitive.Run
import MeteredContract.Primitive.Signature
import MeteredContract.Program.Expr
import MeteredContract.Program.Module
import MeteredContract.Program.Stmt
import MeteredContract.Proofs.Admission
import MeteredContract.Proofs.Admission.Addresses
import MeteredContract.Proofs.Admission.Inhabitants
import MeteredContract.Proofs.Admission.Parts
import MeteredContract.Proofs.Clauses
import MeteredContract.Proofs.Contract.Arguments
import MeteredContract.Proofs.Contract.Conservation
import MeteredContract.Proofs.Contract.Deployment
import MeteredContract.Proofs.Contract.Dispatch
import MeteredContract.Proofs.Contract.Establishment
import MeteredContract.Proofs.Contract.Fields
import MeteredContract.Proofs.Contract.History
import MeteredContract.Proofs.Contract.Identity
import MeteredContract.Proofs.Contract.Implicit
import MeteredContract.Proofs.Contract.Limit
import MeteredContract.Proofs.Contract.Outgoing
import MeteredContract.Proofs.Contract.Purity
import MeteredContract.Proofs.Contract.Selection
import MeteredContract.Proofs.Contract.Trail
import MeteredContract.Proofs.Datatype
import MeteredContract.Proofs.Evaluation.Atom
import MeteredContract.Proofs.Evaluation.Messages
import MeteredContract.Proofs.Evaluation.Stage
import MeteredContract.Proofs.Evaluation.Steps
import MeteredContract.Proofs.Evaluation.Types
import MeteredContract.Proofs.Execution.Configuration
import MeteredContract.Proofs.Execution.Effect
import MeteredContract.Proofs.Execution.Fields
import MeteredContract.Proofs.Execution.Frame
import MeteredContract.Proofs.Execution.Implicit
import MeteredContract.Proofs.Execution.InPlace
import MeteredContract.Proofs.Execution.Limit
import MeteredContract.Proofs.Execution.Names
import MeteredContract.Proofs.Execution.Outgoing
import MeteredContract.Proofs.Execution.Plain
import MeteredContract.Proofs.Execution.Point
import MeteredContract.Proofs.Execution.Steps
import MeteredContract.Proofs.Execution.Success
import MeteredContract.Proofs.Execution.Trail
import MeteredContract.Proofs.FixedInt
import MeteredContract.Proofs.Gas.Exact
import MeteredContract.Proofs.Gas.Saturation
import MeteredContract.Proofs.Gas.Size
import MeteredContract.Proofs.Induction
import MeteredContract.Proofs.Metering.Causes
import MeteredContract.Proofs.Metering.Evaluation
import MeteredContract.Proofs.Metering.Exact
import MeteredContract.Proofs.Metering.Law
import MeteredContract.Proofs.Primitive
import MeteredContract.Proofs.Primitive.Arithmetic
import MeteredContract.Proofs.Primitive.Price
import MeteredContract.Proofs.Primitive.Signature
import MeteredContract.Proofs.Primitive.Text
import MeteredContract.Proofs.Run
import MeteredContract.Proofs.Scope.Bindings
import MeteredContract.Proofs.Scope.Closures
import MeteredContract.Proofs.Scope.Embedding
import MeteredContract.Proofs.Scope.Evaluation
import MeteredContract.Proofs.Scope.Growth
import MeteredContract.Proofs.Scope.Immutability
import MeteredContract.Proofs.Scope.Layout
import MeteredContract.Proofs.Scope.Likeness
import MeteredContract.Proofs.Scope.Lookup
import MeteredContract.Proofs.Scope.Renaming
import MeteredContract.Proofs.Scope.Sound
import MeteredContract.Proofs.Scope.Types
import MeteredContract.Proofs.Scope.Views
import MeteredContract.Proofs.Store.Domain
import MeteredContract.Proofs.Store.Paths
import MeteredContract.Proofs.Store.Purity
import MeteredContract.Proofs.Termination.Block
import MeteredContract.Proofs.Termination.Bound
import MeteredContract.Proofs.Termination.Ends
import MeteredContract.Proofs.Termination.Expr
import MeteredContract.Proofs.Text.Decimal
import MeteredContract.Proofs.Text.Slice
import MeteredContract.Proofs.Ty.Substitution
import MeteredContract.Proofs.Ty.Variables
import MeteredContract.Proofs.Value.Elements
import MeteredContract.Proofs.Value.Entries
import MeteredContract.Proofs.Value.Equality
import MeteredContract.Proofs.Value.Form
import MeteredContract.Proofs.Value.Match
import MeteredContract.Proofs.Value.Order
import MeteredContract.Proofs.Value.Parts
import MeteredContract.Proofs.Value.Sorted
import MeteredContract.Scope.Arena
import MeteredContract.Span
import MeteredContract.Store
import MeteredContract.Table
import MeteredContract.Text.Combining
import MeteredContract.Text.Decimal
import MeteredContract.Text.Edges
import MeteredContract.Text.Hex
import MeteredContract.Text.Quoted
import MeteredContract.Text.Slice
import MeteredContract.Text.Unprintable
import MeteredContract.Tokens
import MeteredContract.Ty.Basic
import MeteredContract.Ty.Subst
import MeteredContract.Ty.Text
import MeteredContract.Value.Basic
import MeteredContract.Value.Map
import MeteredContract.Value.Match
import MeteredContract.Value.Order
import MeteredContract.Value.Text
import MeteredContract.Word
