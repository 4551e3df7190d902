import Formulae.Arithmetic
import Formulae.Proofs.CallValue
import Formulae.Proofs.CheckedReading
import Formulae.Proofs.CommonShape
import Formulae.Proofs.ConsoleLines
import Formulae.Proofs.CursorCalls
import Formulae.Proofs.DerivativeGrowth
import Formulae.Proofs.Differentiation
import Formulae.Proofs.ElementLocality
import Formulae.Proofs.Entries
import Formulae.Proofs.ErrorPreview
import Formulae.Proofs.FaithfulConstant
import Formulae.Proofs.FirstFault
import Formulae.Proofs.HandlersInForce
import Formulae.Proofs.IteratedDerivative
import Formulae.Proofs.LevelOrder
import Formulae.Proofs.MixedDerivatives
import Formulae.Proofs.NestingLimit
import Formulae.Proofs.NodeCounts
import Formulae.Proofs.OperandCount
import Formulae.Proofs.PointwiseValidity
import Formulae.Proofs.ReportedWork
import Formulae.Proofs.Safety
import Formulae.Proofs.Sessions
import Formulae.Proofs.StackReading
import Formulae.Proofs.Stretching
import Formulae.Proofs.StyleTokens
import Formulae.Proofs.TableValue
import Formulae.Proofs.TextLayout
import Formulae.Proofs.TextualEquality
import Formulae.Proofs.VariablesRead
import Formulae.Term.Call
import Formulae.Term.Evaluate
import Formulae.Term.Kernel
import Formulae.Term.Traversal
import Formulae.Token.Cursor
import Formulae.Workspace.Evaluation
