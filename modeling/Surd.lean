import Surd.Expression
import Surd.Grammar
import Surd.Main
import Surd.Number.RoundTrip
import Surd.Postfix
import Surd.Stretch
import Surd.Token.Cursor
import Surd.Token.Sequence
import Surd.Proofs.Literal
import Surd.Proofs.Normal
import Surd.Proofs.Token.Reading
import Surd.Proofs.Evaluation.Accounting
import Surd.Proofs.Evaluation.Places
import Surd.Proofs.Expression
import Surd.Proofs.Evaluation.Hole
import Surd.Proofs.Evaluation.Group
import Surd.Proofs.Token.Lexeme
import Surd.Proofs.Number.Zero
import Surd.Proofs.Substitution
import Surd.Proofs.Grammar
import Surd.Proofs.Number.Hundredth
import Surd.Proofs.Evaluation.Tail
import Surd.Proofs.LastNumber.Leftmost
import Surd.Proofs.LastNumber
import Surd.Proofs.Evaluation.LastOperand
import Surd.Proofs.Evaluation.Malformed
import Surd.Proofs.Percent
import Surd.Proofs.Token.Tiling
import Surd.Proofs.LastNumber.FromEnd
import Surd.Proofs.Evaluation.Frames
import Surd.Proofs.Evaluation.Flaw
import Surd.Proofs.Parentheses
import Surd.Proofs.Resubmission
import Surd.Proofs.Diagnostics
import Surd.Proofs.Evaluation.Visits
import Surd.Proofs.Operands
import Surd.Proofs.Derivation
import Surd.Proofs.LeadingZeros
import Surd.Proofs.Number.Opposite
import Surd.Proofs.LeadingMinus
import Surd.Proofs.Alphabet
import Surd.Proofs.Session.Run
import Surd.Proofs.Session.Continuation
import Surd.Proofs.Session.History
import Surd.Proofs.Session.Filter
import Surd.Proofs.Session.Typing
import Surd.Proofs.Token.Items
import Surd.Proofs.Token.Legal
import Surd.Proofs.Evaluation.Shift
import Surd.Proofs.Evaluation.Postfix
import Surd.Proofs.Evaluation.OpenGroups
import Surd.Proofs.Unpaired
import Surd.Proofs.SquareRoot
import Surd.Proofs.Stretch
import Surd.Proofs.Command.Dialogue
import Surd.Proofs.Command.FrontEnds
import Surd.Proofs.Respelling
import Surd.Proofs.Session.Keyboard
import Surd.Proofs.Command.Batch
import Surd.Proofs.Command.Prompts
import Surd.Proofs.Evaluation.Waiting
import Surd.Proofs.Token.Cursor
import Surd.Proofs.Token.Boundaries
