import Surd.Evaluation
import Surd.Expression

/-!
# Postfix form

The tokens of a frame can be put into postfix form without computing a value: only the order of
operators is settled, and a fault of the text becomes an item that stands after all that is applied
before it is met. A machine with one stack then computes the value from the items. The order and the
operations are those of what is written.
-/

namespace Surd.Postfix

/-- An item of the postfix form. -/
inductive Item
  | push (value : Float)
  /-- Push the root of the argument of a token. -/
  | root (token : Token) (body : Text)
  | apply (op : Operator) (offset : Nat)
  | fail (fault : Fault)
  deriving DecidableEq

/-- The operators of a tier and of those above it, back to the last open group or to an operator of
a tier below, and what waits there. -/
def popTier (tier : Nat) : List (Pending × Nat) → List Item × List (Pending × Nat)
  | (.operator op, offset) :: pending =>
    if tier ≤ Expression.tier op then
      let (items, below) := popTier tier pending
      (.apply op offset :: items, below)
    else ([], (.operator op, offset) :: pending)
  | pending => ([], pending)

/-- The operators of the last open group, and what waits below it, if a group is open. -/
def popGroup : List (Pending × Nat) → List Item × Option (List (Pending × Nat))
  | (.operator op, offset) :: pending =>
    let (items, below) := popGroup pending
    (.apply op offset :: items, below)
  | (.group, _) :: pending => ([], some pending)
  | [] => ([], none)

/-- All operators that wait at the end; a group that is still open is a fault. -/
def popAll : List (Pending × Nat) → List Item
  | (.operator op, offset) :: pending => .apply op offset :: popAll pending
  | (.group, offset) :: _ => [.fail ⟨.unclosedParen, ⟨offset, offset + 1⟩⟩]
  | [] => []

/-- The postfix form of tokens that end in a fault or not, when something waits already. -/
def emit (pending : List (Pending × Nat)) (fault : Option Fault) : List Token → List Item
  | [] =>
    match fault with
    | some fault => [.fail fault]
    | none => popAll pending
  | token :: tokens =>
    match token.kind with
    | .number value => .push value :: emit pending fault tokens
    | .root body => .root token body :: emit pending fault tokens
    | .leftParen => emit ((.group, token.offset) :: pending) fault tokens
    | .rightParen =>
      match popGroup pending with
      | (items, some below) => items ++ emit below fault tokens
      | (items, none) => items ++ [.fail ⟨.unmatchedClose, token.span⟩]
    | .operator op =>
      let (items, below) := popTier (Expression.tier op) pending
      items ++ emit ((.operator op, token.offset) :: below) fault tokens

/-- Runs the items on a stack of operands, up to the first fault. An operator takes two operands off
the stack, and its fault is the character that writes it; the fault of a root is the whole of it. -/
def consume (argument : Frame → Except Fault Float) :
    List Item → List Float → Except Fault (List Float)
  | [], operands => .ok operands
  | .push value :: items, operands => consume argument items (value :: operands)
  | .root token body :: items, operands =>
    match argument (Frame.ofRoot token body) with
    | .error fault => .error fault
    | .ok value =>
      if value < 0 then .error ⟨.negativeRoot value, token.span⟩
      else consume argument items (value.sqrt :: operands)
  | .apply op offset :: items, right :: left :: operands =>
    match Expression.operate? op left right with
    | some value => consume argument items (value :: operands)
    | none => .error ⟨.divisionByZero, ⟨offset, offset + 1⟩⟩
  | .apply op offset :: _, _ => .error ⟨.missingOperand op, ⟨offset, offset + 1⟩⟩
  | .fail fault :: _, _ => .error fault

/-- The value of a frame by way of its postfix form, with `argument` as the values of frames in
roots: the one value that the machine leaves on its stack. -/
def evaluateWith (argument : Frame → Except Fault Float) (frame : Frame) : Except Fault Float :=
  match consume argument (emit [] frame.scan.fault frame.scan.tokens) [] with
  | .error fault => .error fault
  | .ok [value] => .ok value
  | .ok [] => .error ⟨.emptyExpression, frame.span⟩
  | .ok operands => .error ⟨.missingOperator operands.length, frame.span⟩

/-- The value of a frame by way of its postfix form and of those of the frames in its roots, which
are shorter. -/
def evaluate (frame : Frame) : Except Fault Float :=
  evaluateWith (fun argument =>
    if argument.text.length < frame.text.length then evaluate argument
    else .error ⟨.emptyExpression, argument.span⟩) frame
termination_by frame.text.length

end Surd.Postfix
