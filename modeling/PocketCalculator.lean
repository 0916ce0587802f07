import PocketCalculator.Main
import PocketCalculator.Session
import PocketCalculator.Proofs.Postfix.OperatorTree
import PocketCalculator.Proofs.Postfix.TreeEvaluation
import PocketCalculator.Proofs.Postfix.Phrase
import PocketCalculator.Proofs.Postfix.Precedence
import PocketCalculator.Proofs.Postfix.Group
import PocketCalculator.Proofs.Postfix.Minus
import PocketCalculator.Proofs.Expression.NumeralForm
import PocketCalculator.Proofs.Expression.Partition
import PocketCalculator.Proofs.Postfix.Unopened
import PocketCalculator.Proofs.Postfix.WellFormed
import PocketCalculator.Proofs.IntegerArithmetic
import PocketCalculator.Proofs.Expression.Spacing
import PocketCalculator.Proofs.ReadBack
import PocketCalculator.Proofs.FractionReadout
import PocketCalculator.Proofs.ScientificReadout
import PocketCalculator.Proofs.Postfix.Percent
import PocketCalculator.Proofs.Postfix.Parentheses
import PocketCalculator.Proofs.Postfix.Conservation
import PocketCalculator.Proofs.Session
import PocketCalculator.Proofs.ReadoutForm
import PocketCalculator.Proofs.Repl
import PocketCalculator.Proofs.Postfix.WrittenOut
import PocketCalculator.Proofs.Expression.Separator
import PocketCalculator.Proofs.Postfix.Malformed
import PocketCalculator.Proofs.ReadoutOrder
import PocketCalculator.Proofs.Factorial
import PocketCalculator.Proofs.Sample.EqualNumbers
import PocketCalculator.Proofs.Sample.Integers
import PocketCalculator.Proofs.Sample.Input
import PocketCalculator.Proofs.Postfix.Waiting
import PocketCalculator.Proofs.Trace.Conversion
import PocketCalculator.Proofs.Trace.Evaluation
import PocketCalculator.Proofs.ExponentPadding
