import DynamicOps.Main
import DynamicOps.Table.Edit
import DynamicOps.Proofs.Equality.Symmetry
import DynamicOps.Proofs.Equality.Transparency
import DynamicOps.Proofs.Equality.CanonicalForms
import DynamicOps.Proofs.Equality.Transitivity
import DynamicOps.Proofs.Registry.Promotion
import DynamicOps.Proofs.Verification.Decision
import DynamicOps.Proofs.Table.Grouping
import DynamicOps.Proofs.Verification.Synthesized
import DynamicOps.Proofs.Operation.Routes
import DynamicOps.Proofs.Rendering.Renderability
import DynamicOps.Proofs.Verification.Coverage
import DynamicOps.Proofs.Ordering.Consistency
import DynamicOps.Proofs.Ordering.Integers
import DynamicOps.Proofs.Arithmetic.Outcomes
import DynamicOps.Proofs.Time.Exactness
import DynamicOps.Proofs.Arithmetic.Modular
import DynamicOps.Proofs.Time.Differences
import DynamicOps.Proofs.Verification.Admission
import DynamicOps.Proofs.Operation.Runs
import DynamicOps.Proofs.Arithmetic.Remainders
import DynamicOps.Proofs.Equality.Arrays
import DynamicOps.Proofs.Equality.IntegerViews
import DynamicOps.Proofs.Literal.Durations
import DynamicOps.Proofs.Equality.Identity
import DynamicOps.Proofs.Verification.Edits
import DynamicOps.Proofs.Verification.Rearrangement
import DynamicOps.Proofs.Time.Scaling
import DynamicOps.Proofs.Arithmetic.Commutativity
import DynamicOps.Proofs.Literal.Instants
import DynamicOps.Proofs.Json.NormalForms
import DynamicOps.Proofs.Json.RoundTrip
import DynamicOps.Proofs.Table.Modules
import DynamicOps.Proofs.CommandLine.Options
import DynamicOps.Proofs.Rendering.Layout
import DynamicOps.Proofs.Table.Pushes
import DynamicOps.Proofs.Generated.Tables
