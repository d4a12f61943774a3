import Surd.Literal
import Surd.Text.Parens
import Surd.Token

/-!
# Sequences of lexemes

A lexeme is a token as it is written, without a place. Lexemes can be written next to each other if
none of them changes how its neighbour is read: a minus sign is an operator only after a value, a
number has a sign only where there is none before it, and two numbers do not run together.
-/

namespace Surd

/-- A token as it is written. -/
inductive Lexeme
  | leftParen
  | rightParen
  | operator (op : Operator)
  | number (literal : Literal)
  | root (body : Text) (hbody : Text.Balanced body)

namespace Lexeme

/-- The characters of a lexeme. -/
def text : Lexeme → Text
  | leftParen => ['(']
  | rightParen => [')']
  | operator op => [op.symbol]
  | number literal => literal.text
  | root body _ => Token.rootOpening ++ body ++ [')']

/-- What a lexeme means. -/
def kind : Lexeme → Token.Kind
  | leftParen => .leftParen
  | rightParen => .rightParen
  | operator op => .operator op
  | number literal => .number literal.value
  | root body _ => .root body

/-- Whether a lexeme ends a value, so that a minus sign after it is an operator. -/
def EndsValue : Lexeme → Prop
  | number _ | rightParen | root _ _ => True
  | leftParen | operator _ => False

/-- Whether a lexeme may stand after another, or first if there is none before it. -/
def MayFollow (previous : Option Lexeme) : Lexeme → Prop
  | operator .sub => ∃ before, previous = some before ∧ before.EndsValue
  | number literal =>
    if literal.negative then ∀ before, previous = some before → ¬ before.EndsValue
    else ∀ before, previous = some (number before) → before.percent = true
  | _ => True

/-- Every lexeme may stand where it stands, the first one after `previous`. -/
def Legal (previous : Option Lexeme) : List Lexeme → Prop
  | [] => True
  | lexeme :: lexemes => lexeme.MayFollow previous ∧ Legal (some lexeme) lexemes

/-- The text of lexemes written next to each other. -/
def join (lexemes : List Lexeme) : Text := lexemes.flatMap text

end Lexeme

end Surd
