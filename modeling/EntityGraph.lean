import EntityGraph.Calendar.Date
import EntityGraph.Calendar.Reading
import EntityGraph.Calendar.Span
import EntityGraph.Document.Basic
import EntityGraph.Document.Outline
import EntityGraph.Document.Parse
import EntityGraph.Document.Token
import EntityGraph.Document.TypePhrase
import EntityGraph.Eval.Evaluate
import EntityGraph.Eval.Sorting
import EntityGraph.Eval.Sorting.Merge
import EntityGraph.Eval.Sorting.Place
import EntityGraph.Eval.Sorting.Runs
import EntityGraph.Expr.Basic
import EntityGraph.Expr.Build
import EntityGraph.Expr.Checked
import EntityGraph.Expr.Draft
import EntityGraph.Expr.Fault
import EntityGraph.Expr.Traverse
import EntityGraph.Fault
import EntityGraph.Host.Class
import EntityGraph.Host.Hint
import EntityGraph.Host.Kind
import EntityGraph.Host.Method
import EntityGraph.Interface.Introspection
import EntityGraph.Interface.OfSchema
import EntityGraph.Interface.System
import EntityGraph.Interface.Text
import EntityGraph.Making
import EntityGraph.Number.Based
import EntityGraph.Number.Binary
import EntityGraph.Number.ComplexFloat
import EntityGraph.Number.Decimal
import EntityGraph.Number.DecimalFloat
import EntityGraph.Number.DecimalFloat.Text
import EntityGraph.Number.Form
import EntityGraph.Number.Hypotenuse
import EntityGraph.Number.Shortest
import EntityGraph.Proofs.Capture.Covered
import EntityGraph.Proofs.Capture.Lambda
import EntityGraph.Proofs.Capture.Making
import EntityGraph.Proofs.Capture.Run
import EntityGraph.Proofs.Capture.Within
import EntityGraph.Proofs.Document.Inlined
import EntityGraph.Proofs.Document.Kept
import EntityGraph.Proofs.Document.Spread
import EntityGraph.Proofs.Document.Written
import EntityGraph.Proofs.Eval.Alike
import EntityGraph.Proofs.Eval.Binding
import EntityGraph.Proofs.Eval.Congruence
import EntityGraph.Proofs.Eval.Filtering
import EntityGraph.Proofs.Eval.Missing
import EntityGraph.Proofs.Eval.Ordered
import EntityGraph.Proofs.Eval.Permuted
import EntityGraph.Proofs.Eval.Renaming
import EntityGraph.Proofs.Eval.Scoped
import EntityGraph.Proofs.Eval.Sorting
import EntityGraph.Proofs.Eval.Steady
import EntityGraph.Proofs.Eval.Trusting
import EntityGraph.Proofs.Eval.Typed
import EntityGraph.Proofs.Eval.Upheld
import EntityGraph.Proofs.Expr.Open
import EntityGraph.Proofs.Expr.Renaming
import EntityGraph.Proofs.Expr.Substitution
import EntityGraph.Proofs.Fails
import EntityGraph.Proofs.Host.Class
import EntityGraph.Proofs.Host.Alike
import EntityGraph.Proofs.Host.Optional
import EntityGraph.Proofs.Interface.Mirror
import EntityGraph.Proofs.Interface.Placing
import EntityGraph.Proofs.Interface.Sound
import EntityGraph.Proofs.Realm.CalmMethod
import EntityGraph.Proofs.Request.Accepted
import EntityGraph.Proofs.Request.Akin
import EntityGraph.Proofs.Request.Answered
import EntityGraph.Proofs.Request.Asserted
import EntityGraph.Proofs.Request.Closed
import EntityGraph.Proofs.Request.Composed
import EntityGraph.Proofs.Request.Entries
import EntityGraph.Proofs.Request.Executed
import EntityGraph.Proofs.Request.Filled
import EntityGraph.Proofs.Request.Given
import EntityGraph.Proofs.Request.Incurred
import EntityGraph.Proofs.Request.Inlined
import EntityGraph.Proofs.Request.Introspected
import EntityGraph.Proofs.Request.Lookup
import EntityGraph.Proofs.Request.Materialized
import EntityGraph.Proofs.Request.Paginated
import EntityGraph.Proofs.Request.Planned
import EntityGraph.Proofs.Request.Readable
import EntityGraph.Proofs.Request.Refusal
import EntityGraph.Proofs.Request.Repeated
import EntityGraph.Proofs.Request.Required
import EntityGraph.Proofs.Request.Resolving
import EntityGraph.Proofs.Request.Scoped
import EntityGraph.Proofs.Request.Shaped
import EntityGraph.Proofs.Request.Steady
import EntityGraph.Proofs.Request.Undisturbed
import EntityGraph.Proofs.Request.Visited
import EntityGraph.Proofs.Run
import EntityGraph.Proofs.Schema.Commuted
import EntityGraph.Proofs.Schema.Completed
import EntityGraph.Proofs.Schema.Consistent
import EntityGraph.Proofs.Schema.Described
import EntityGraph.Proofs.Schema.History
import EntityGraph.Proofs.Schema.Inferred
import EntityGraph.Proofs.Schema.Listed
import EntityGraph.Proofs.Schema.Outline
import EntityGraph.Proofs.Schema.Reached
import EntityGraph.Proofs.Schema.Refused
import EntityGraph.Proofs.Schema.Rollback
import EntityGraph.Proofs.Schema.Shapes
import EntityGraph.Proofs.Schema.Step
import EntityGraph.Proofs.Script.Apart
import EntityGraph.Proofs.Script.Arguments
import EntityGraph.Proofs.Script.Called
import EntityGraph.Proofs.Script.Captured
import EntityGraph.Proofs.Script.Faithful
import EntityGraph.Proofs.Script.Kind
import EntityGraph.Proofs.Script.Recorded
import EntityGraph.Proofs.Script.Recording
import EntityGraph.Proofs.Validity.Collect
import EntityGraph.Proofs.Validity.Inlined
import EntityGraph.Proofs.Validity.Reach
import EntityGraph.Proofs.Validity.Unrolled
import EntityGraph.Proofs.Value.Hinted
import EntityGraph.Proofs.Value.Mundane
import EntityGraph.Proofs.Value.Records
import EntityGraph.Request.Compose
import EntityGraph.Request.Execute
import EntityGraph.Request.Materialize
import EntityGraph.Scalar.Registry
import EntityGraph.Scalar.Translate
import EntityGraph.Schema.Arguments
import EntityGraph.Schema.Basic
import EntityGraph.Schema.Completion
import EntityGraph.Schema.Declare
import EntityGraph.Schema.Field
import EntityGraph.Schema.Inference
import EntityGraph.Schema.Introspection
import EntityGraph.Scope
import EntityGraph.Script.Basic
import EntityGraph.Script.Capture
import EntityGraph.Script.Run
import EntityGraph.Text.CamelCase
import EntityGraph.Text.Character
import EntityGraph.Text.Coding
import EntityGraph.Text.Hex
import EntityGraph.Text.Numeral
import EntityGraph.Text.Quoted
import EntityGraph.Uuid
import EntityGraph.Validity.Document
import EntityGraph.Validity.Field
import EntityGraph.Validity.Fragment
import EntityGraph.Validity.Mention
import EntityGraph.Validity.Merging
import EntityGraph.Validity.Supplied
import EntityGraph.Value.Arithmetic
import EntityGraph.Value.Assignment
import EntityGraph.Value.Attribute
import EntityGraph.Value.Basic
import EntityGraph.Value.Collection
import EntityGraph.Value.Construct
import EntityGraph.Value.Equality
import EntityGraph.Value.Filled
import EntityGraph.Value.Item
import EntityGraph.Value.Legible
import EntityGraph.Value.Medium
import EntityGraph.Value.Message
import EntityGraph.Value.Method
import EntityGraph.Value.Node
import EntityGraph.Value.Operate
import EntityGraph.Value.Operator
import EntityGraph.Value.Order
import EntityGraph.Value.Quantity
import EntityGraph.Value.Recording
import EntityGraph.Value.Shown
import EntityGraph.Value.TextMethod
import EntityGraph.Value.Times
import EntityGraph.World
