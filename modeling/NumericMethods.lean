import NumericMethods.Main
import NumericMethods.Proofs.NumericError
import NumericMethods.Proofs.Formula.Token
import NumericMethods.Proofs.Formula.Grammar
import NumericMethods.Proofs.Formula.Outcome
import NumericMethods.Proofs.Formula.Recognition
import NumericMethods.Proofs.Formula.Printing
import NumericMethods.Proofs.Scalar.Binary64
import NumericMethods.Proofs.Scalar.Order
import NumericMethods.Proofs.Scalar.Overflow
import NumericMethods.Proofs.Scalar.Sign
import NumericMethods.Proofs.Formula.Rereading
import NumericMethods.Proofs.Scalar.Real
import NumericMethods.Proofs.Formula.Evaluation
import NumericMethods.Proofs.Formula.RealDerivative
import NumericMethods.Proofs.Formula.Simplification
import NumericMethods.Proofs.Formula.SimpleForm
import NumericMethods.Proofs.Formula.Leaves
import NumericMethods.Proofs.Formula.ConstantFolding
import NumericMethods.Proofs.Scalar.Finiteness
import NumericMethods.Proofs.Formula.HiddenFailure
import NumericMethods.Proofs.Formula.FiniteNumbers
import NumericMethods.Proofs.DenseMatrix.Algebra
import NumericMethods.Proofs.DenseMatrix.Elimination
import NumericMethods.Proofs.DenseMatrix.Substitution
import NumericMethods.Proofs.DenseMatrix.Rows
import NumericMethods.Proofs.Control.Run
import NumericMethods.Proofs.RootFinding.Step
import NumericMethods.Proofs.RootFinding.Search
import NumericMethods.Proofs.RootFinding.Record
import NumericMethods.Proofs.RootFinding.SignChange
import NumericMethods.Proofs.RootFinding.Enclosure
import NumericMethods.Proofs.Scalar.TotalOrder
import NumericMethods.Proofs.Interpolation.Points
import NumericMethods.Proofs.Interpolation.Interpolant
import NumericMethods.Proofs.Interpolation.LagrangeBasis
import NumericMethods.Proofs.Interpolation.DifferenceTable
import NumericMethods.Proofs.Interpolation.DividedDifference
import NumericMethods.Proofs.Interpolation.Agreement
import NumericMethods.Proofs.Interpolation.SplinePiece
import NumericMethods.Proofs.Interpolation.SplineSystem
import NumericMethods.Proofs.Interpolation.SplineLookup
import NumericMethods.Proofs.Interpolation.NaturalSpline
import NumericMethods.Proofs.Stationary.FixedPoint
import NumericMethods.Proofs.Stationary.Run
import NumericMethods.Proofs.DenseMatrix.Norm
import NumericMethods.Proofs.Stationary.Sweep
import NumericMethods.Proofs.Stationary.Residual
import NumericMethods.Proofs.Stationary.Convergence
import NumericMethods.Proofs.DenseMatrix.Pivot
import NumericMethods.Proofs.DenseMatrix.Balancing
import NumericMethods.Proofs.DenseMatrix.Bidiagonal
import NumericMethods.Proofs.Stationary.Splitting
import NumericMethods.Proofs.Stationary.Overflow
import NumericMethods.Proofs.Control.StepCheck
import NumericMethods.Proofs.Control.Monotone
import NumericMethods.Proofs.Comparison.Ranking
import NumericMethods.Proofs.Text.Lines
import NumericMethods.Proofs.Task.Line
import NumericMethods.Proofs.Task.Document
import NumericMethods.Proofs.Task.Rules
import NumericMethods.Proofs.Task.Layout
import NumericMethods.Proofs.Formula.Phrase
import NumericMethods.Proofs.Interpolation.Notation
import NumericMethods.Proofs.Interpolation.FormNotation
import NumericMethods.Proofs.Scalar.Rational
import NumericMethods.Proofs.Interpolation.WrittenNumber
import NumericMethods.Proofs.Interpolation.WrittenPolynomial
import NumericMethods.Proofs.DenseMatrix.Determinant
import NumericMethods.Proofs.DenseMatrix.Rescaling
import NumericMethods.Proofs.Scalar.Largest
import NumericMethods.Proofs.Comparison.Accuracy
import NumericMethods.Proofs.Stationary.Record
import NumericMethods.Proofs.Formula.Termination
import NumericMethods.Proofs.Formula.Polynomial
import NumericMethods.Proofs.RootFinding.MultipleRoot
import NumericMethods.Proofs.RootFinding.Halving
import NumericMethods.Proofs.Interpolation.Polyline
import NumericMethods.Proofs.Interpolation.ShownSystem
import NumericMethods.Proofs.Interpolation.SplineSymmetry
import NumericMethods.Proofs.Formula.Remainder
import NumericMethods.Proofs.Formula.Juxtaposition
import NumericMethods.Proofs.Task.NumberList
import NumericMethods.Proofs.Task.Inputs
import NumericMethods.Proofs.DenseMatrix.Multiplier
import NumericMethods.Proofs.Scalar.Equality
import NumericMethods.Proofs.Interpolation.PointCheck
import NumericMethods.Proofs.Scalar.Range
import NumericMethods.Proofs.Interpolation.WrittenAcceptance
import NumericMethods.Proofs.Interpolation.WrittenRange
