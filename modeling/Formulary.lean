import Formulary.Binary64.Arith
import Formulary.Formula.Interval
import Formulary.Formula.Setting
import Formulary.Proofs.Arithmetic.ExactLaws
import Formulary.Proofs.Expr.Derivation
import Formulary.Proofs.Expr.EvalErrors
import Formulary.Proofs.Expr.Folding
import Formulary.Proofs.Expr.FusedValues
import Formulary.Proofs.Expr.Idempotence
import Formulary.Proofs.Expr.MachineValues
import Formulary.Proofs.Expr.MissingRules
import Formulary.Proofs.Expr.NegatedPowers
import Formulary.Proofs.Expr.PolynomialValues
import Formulary.Proofs.Expr.Reached
import Formulary.Proofs.Expr.Rebinding
import Formulary.Proofs.Expr.SettledTrees
import Formulary.Proofs.Expr.Shape
import Formulary.Proofs.Formula.Pointwise
import Formulary.Proofs.Grammar.NumberTokens
import Formulary.Proofs.Grammar.Rejects
import Formulary.Proofs.Parse.Leftovers
import Formulary.Proofs.Parse.LetterCase
import Formulary.Proofs.Printing.Removal
import Formulary.Proofs.Printing.RoundTrip
import Formulary.Proofs.Program.BranchCuts
import Formulary.Proofs.Program.ErrorTokens
import Formulary.Proofs.Program.RealMode
import Formulary.Proofs.Program.Simulation
import Formulary.Proofs.Parse.Reordering
import Formulary.Proofs.Program.PostOrder
import Formulary.Proofs.Grammar.Blanks
import Formulary.Proofs.Grammar.Cutting
import Formulary.Proofs.Grammar.Gaps
import Formulary.Proofs.Program.Unplaced
import Formulary.Proofs.Program.WellFormed
import Formulary.Proofs.Expr.RealDomain
import Formulary.Proofs.Script.Comments
import Formulary.Proofs.Script.Reading
import Formulary.Proofs.Markup.Reading
import Formulary.Proofs.Formula.Settings
import Formulary.Proofs.Number.ErrorFunction
import Formulary.Proofs.Script.Failures
import Formulary.Proofs.Vars.Requests
import Formulary.Proofs.Scan.Words
