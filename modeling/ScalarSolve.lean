import ScalarSolve.Main
import ScalarSolve.Workbench
import ScalarSolve.Proofs.Expression.DualPass
import ScalarSolve.Proofs.Expression.Equation
import ScalarSolve.Proofs.Expression.Finiteness
import ScalarSolve.Proofs.Expression.ResidualMap
import ScalarSolve.Proofs.Expression.Size
import ScalarSolve.Proofs.Formula.Cutting
import ScalarSolve.Proofs.Program.Differentiation
import ScalarSolve.Proofs.Region.Bracket
import ScalarSolve.Proofs.Service.Agreement
import ScalarSolve.Proofs.Service.Status
import ScalarSolve.Proofs.Settings.Precedence
import ScalarSolve.Proofs.Solve.Bookkeeping
import ScalarSolve.Proofs.Solve.Comparison
import ScalarSolve.Proofs.Solve.Continuation
import ScalarSolve.Proofs.Solve.Refusal
import ScalarSolve.Proofs.Solve.Trace
import ScalarSolve.Proofs.Solve.Newton
import ScalarSolve.Proofs.Solve.Secant
import ScalarSolve.Proofs.Formula.Beginning
import ScalarSolve.Proofs.Formula.Diagnosis
import ScalarSolve.Proofs.Solve.Reversal
import ScalarSolve.Proofs.Solve.Confinement
import ScalarSolve.Proofs.Solve.Reporting
import ScalarSolve.Proofs.Region.Coverage
import ScalarSolve.Proofs.Region.Range
import ScalarSolve.Proofs.Region.Ascent
import ScalarSolve.Proofs.Region.Justification
