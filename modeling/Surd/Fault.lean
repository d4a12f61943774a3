import Surd.Number
import Surd.Operator

/-!
# Faults

A fault is a cause and the span of the text that it lies in. A diagnostic adds the text itself, so
that it can be shown with the span marked. The wording of every message is fixed here.
-/

namespace Surd

/-- Why a text has no value. -/
inductive Cause
  /-- A root sign that no opening parenthesis follows. -/
  | missingRootParen
  /-- A root sign whose opening parenthesis is never closed. -/
  | unterminatedRoot
  /-- A closing parenthesis that none opens. -/
  | unmatchedClose
  /-- An opening parenthesis that none closes. -/
  | unclosedParen
  /-- The root of a number below zero. -/
  | negativeRoot (value : Float)
  | divisionByZero
  /-- A character that begins no token. -/
  | unexpectedCharacter (c : Char)
  /-- Digits and points that form no decimal. -/
  | invalidNumber (literal : Text)
  /-- An operator with fewer than two operands. -/
  | missingOperand (op : Operator)
  /-- Several values that no operator joins. -/
  | missingOperator (count : Nat)
  | emptyExpression
  deriving DecidableEq

/-- The kinds of causes that a caller may want to tell apart. -/
inductive Cause.Kind
  | unbalancedParens
  | negativeRoot
  | divisionByZero
  | malformedExpression
  deriving DecidableEq, Repr

namespace Cause

/-- The kind of a cause. -/
def kind : Cause → Kind
  | missingRootParen | unterminatedRoot | unmatchedClose | unclosedParen => .unbalancedParens
  | negativeRoot _ => .negativeRoot
  | divisionByZero => .divisionByZero
  | unexpectedCharacter _ | invalidNumber _ | missingOperand _ | missingOperator _
  | emptyExpression => .malformedExpression

/-- Whether a cause lies in the use of a root sign. -/
def concernsRoot : Cause → Bool
  | missingRootParen | unterminatedRoot | negativeRoot _ => true
  | _ => false

/-- One line that says what is wrong. -/
def message : Cause → Text
  | missingRootParen => "square root must be followed by `(`".toList
  | unterminatedRoot => "unbalanced parentheses in square root argument".toList
  | unmatchedClose => "unmatched `)`".toList
  | unclosedParen => "unclosed `(`".toList
  | negativeRoot value => "square root of negative number ".toList ++ Number.text value
  | divisionByZero => "division by zero".toList
  | unexpectedCharacter c => "unexpected character '".toList ++ [c, '\'']
  | invalidNumber literal => "invalid number `".toList ++ literal ++ ['`']
  | missingOperand op => "operator `".toList ++ op.symbol :: "` is missing an operand".toList
  | missingOperator count =>
    Nat.toDigits 10 count ++ " values are left without an operator between them".toList
  | emptyExpression => "empty expression".toList

/-- The name by which a cause can be looked up. -/
def code : Cause → Text
  | missingRootParen => "sqrtcalc::missing_root_paren".toList
  | unterminatedRoot => "sqrtcalc::unterminated_root".toList
  | unmatchedClose => "sqrtcalc::unmatched_close".toList
  | unclosedParen => "sqrtcalc::unclosed_paren".toList
  | negativeRoot _ => "sqrtcalc::negative_root".toList
  | divisionByZero => "sqrtcalc::division_by_zero".toList
  | unexpectedCharacter _ => "sqrtcalc::unexpected_character".toList
  | invalidNumber _ => "sqrtcalc::invalid_number".toList
  | missingOperand _ => "sqrtcalc::missing_operand".toList
  | missingOperator _ => "sqrtcalc::missing_operator".toList
  | emptyExpression => "sqrtcalc::empty_expression".toList

/-- Advice on mending the text, where there is any. -/
def help : Cause → Option Text
  | missingRootParen => some "write the argument in parentheses, e.g. `sqrt(16)`".toList
  | unterminatedRoot => some "add the missing `)` to close the square root".toList
  | unclosedParen => some "add the missing `)`".toList
  | negativeRoot _ => some "complex results are not supported".toList
  | unexpectedCharacter c => some ("remove or correct the character: `".toList ++ [c, '`'])
  | _ => none

/-- What is written beside the marked span. -/
def label : Cause → Text
  | missingRootParen => "this square root".toList
  | unterminatedRoot => "never closed".toList
  | unmatchedClose => "no `(` opens this".toList
  | unclosedParen => "opened here".toList
  | negativeRoot _ => "argument is negative".toList
  | divisionByZero => "right-hand side is zero".toList
  | unexpectedCharacter _ => "this character".toList
  | invalidNumber _ => "this numeric literal".toList
  | missingOperand _ => "this operator".toList
  | missingOperator _ => "in this expression".toList
  | emptyExpression => "nothing to evaluate here".toList

end Cause

/-- A cause and where it lies. -/
structure Fault where
  cause : Cause
  span : Span
  deriving DecidableEq

/-- A fault together with the text that its span points into. -/
structure Diagnostic extends Fault where
  source : Text
  deriving DecidableEq

/-- The diagnostic of a fault found in a text. -/
def Fault.within (source : Text) (fault : Fault) : Diagnostic := ⟨fault, source⟩

end Surd
