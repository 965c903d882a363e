import LinearReduction.Scalar.Binary64
import LinearReduction.Scalar.Exact
import LinearReduction.Program.Effect
import LinearReduction.Program.Matrix
import LinearReduction.Solution.Optimal
import LinearReduction.Solution.Basis
import LinearReduction.Session.Reachable
import LinearReduction.Recovery.Replay
import LinearReduction.Workbench
import LinearReduction.Proofs.Program.Entries
import LinearReduction.Proofs.Program.Rewritten
import LinearReduction.Proofs.Program.Transposed
import LinearReduction.Proofs.Outcome
import LinearReduction.Proofs.Program.Editing
import LinearReduction.Proofs.Program.Coherent
import LinearReduction.Proofs.Session.Rewrite
import LinearReduction.Proofs.Session.Rules
import LinearReduction.Proofs.Session.Runs
import LinearReduction.Proofs.Recovery.Valuation
import LinearReduction.Proofs.Recovery.Undone
import LinearReduction.Proofs.Recovery.Unwound
import LinearReduction.Proofs.Recovery.Possible
import LinearReduction.Proofs.Exact.Values
import LinearReduction.Proofs.Exact.Entries
import LinearReduction.Proofs.Exact.Program
import LinearReduction.Proofs.Exact.Feasibility
import LinearReduction.Proofs.Exact.Cost
import LinearReduction.Proofs.Exact.Rewrites
import LinearReduction.Proofs.Exact.Points
import LinearReduction.Proofs.Verdict
import LinearReduction.Proofs.Program.Condensing
import LinearReduction.Proofs.Exact.Condensing
import LinearReduction.Proofs.Exact.Certificate
import LinearReduction.Proofs.Exact.Recovered
import LinearReduction.Proofs.Exact.Solutions
import LinearReduction.Proofs.Optimality
import LinearReduction.Proofs.Equivalence
import LinearReduction.Proofs.RecoveredPoint
import LinearReduction.Proofs.Exact.Basis
import LinearReduction.Proofs.Exact.Held
import LinearReduction.Proofs.Exact.Statuses
import LinearReduction.Proofs.RecoveredBasis
import LinearReduction.Proofs.Program.Sound
import LinearReduction.Proofs.Soundness
import LinearReduction.Proofs.Session.Sequences
import LinearReduction.Proofs.Session.Balance
import LinearReduction.Proofs.Exact.Agreement
import LinearReduction.Proofs.RecoveredStatuses
import LinearReduction.Proofs.Session.Eligible
import LinearReduction.Proofs.Session.StandardForm
import LinearReduction.Proofs.Exact.Completion
import LinearReduction.Proofs.Simplification
import LinearReduction.Proofs.Session.Eliminations
import LinearReduction.Proofs.Session.Worklist
import LinearReduction.Proofs.Exact.Remainder
import LinearReduction.Proofs.Exact.Justified
import LinearReduction.Proofs.Exact.Irreducible
import LinearReduction.Proofs.EliminationOrder
import LinearReduction.Proofs.Failures
import LinearReduction.Proofs.Session.NegativeParts
import LinearReduction.Proofs.Integrality
import LinearReduction.Proofs.Session.Origin
import LinearReduction.Proofs.Opposite
import LinearReduction.Proofs.Recovery.Replayed
import LinearReduction.Proofs.Independence
import LinearReduction.Proofs.Session.Turns
import LinearReduction.Proofs.Exhaustion
import LinearReduction.Proofs.Scalar.Finite
import LinearReduction.Proofs.StandardForm
import LinearReduction.Proofs.Idempotence
import LinearReduction.Proofs.Recovery.Returned
import LinearReduction.Proofs.Substitution
import LinearReduction.Proofs.Scalar.Negation
import LinearReduction.Proofs.Coherence
import LinearReduction.Proofs.MatrixEdits
import LinearReduction.Proofs.Program.Ascending
import LinearReduction.Proofs.Condensation
