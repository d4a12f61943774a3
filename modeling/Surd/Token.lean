import Surd.Fault

/-!
# Tokens

A token is a piece of a text with its place and its meaning. A square root with its argument is a
single token: the argument is kept as text, to be evaluated on its own.
-/

namespace Surd

/-- What a token means. -/
inductive Token.Kind
  | leftParen
  | rightParen
  | operator (op : Operator)
  /-- A literal, with its sign and after division by a hundred if a percent sign ends it. -/
  | number (value : Float)
  /-- The root of the text between the parentheses. -/
  | root (body : Text)
  deriving DecidableEq

/-- A piece of a text, where it starts, and what it means. -/
structure Token where
  kind : Token.Kind
  literal : Text
  offset : Nat
  deriving DecidableEq

namespace Token

/-- Where a token stands. -/
def span (token : Token) : Span := .of token.offset token.literal

/-- The root sign and the parenthesis after it. -/
def rootOpening : Text := ['√', '(']

/-- Where the argument of a root stands. -/
def bodySpan? (token : Token) : Option Span :=
  match token.kind with
  | .root body => some (.of (token.offset + Text.bytes rootOpening) body)
  | _ => none

/-- The name of a kind of token. -/
def Kind.name : Kind → Text
  | leftParen => "LEFT_PAREN".toList
  | rightParen => "RIGHT_PAREN".toList
  | operator .add => "PLUS".toList
  | operator .sub => "MINUS".toList
  | operator .mul => "STAR".toList
  | operator .div => "SLASH".toList
  | operator .pow => "CARET".toList
  | number _ => "NUMBER".toList
  | root _ => "ROOT".toList

/-- What is written after the literal of a token: the value of a number, the span of the argument
of a root. -/
def details (token : Token) : Text :=
  match token.kind, token.bodySpan? with
  | .number value, _ => ' ' :: Number.text value
  | _, some body => ' ' :: Nat.toDigits 10 body.start ++ '.' :: '.' :: Nat.toDigits 10 body.stop
  | _, none => []

/-- One line that shows a token. -/
def display (token : Token) : Text :=
  token.kind.name ++ ' ' :: token.literal ++ token.details

end Token

end Surd
