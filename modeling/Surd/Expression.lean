import Surd.Literal
import Surd.Fault

/-!
# Expressions

An expression is a tree of literals, operators and square roots. Written down it also has
parentheses: those that the tiers of its operators require and any number of others. Evaluating the
written form from the leaves up gives the value of the tree, or the first fault in the order left
operand, right operand, operator.
-/

namespace Surd

/-- A calculation as a tree. -/
inductive Expression
  | number (literal : Literal)
  | binary (op : Operator) (left right : Expression)
  | root (argument : Expression)

namespace Expression

/-- The tier of an operator in what is written. Sums and differences are made up of products and
quotients, these of powers, and these of operands. -/
def tier : Operator → Nat
  | .add | .sub => 1
  | .mul | .div => 2
  | .pow => 3

/-- The result of an operation on two numbers. There is no quotient by a zero, of either sign; the
power with exponent zero, of either sign, is one. -/
def operate? : Operator → Float → Float → Option Float
  | .add, left, right => some (left + right)
  | .sub, left, right => some (left - right)
  | .mul, left, right => some (left * right)
  | .div, left, right => if right == 0 then none else some (left / right)
  | .pow, left, right => some (if right == 0 then 1 else left ^ right)

/-- The tiers order the operators as the precedences do by which they are evaluated. -/
theorem tier_lt_tier_iff {op op' : Operator} :
    tier op < tier op' ↔ op.precedence < op'.precedence := by
  cases op <;> cases op' <;> decide

/-- An operation has the result that the evaluation of its operator comes to. -/
theorem operate?_eq_value? (op : Operator) (left right : Float) :
    operate? op left right = op.value? left right := by
  cases op <;> rfl

/-- The value of an expression, where it has one. -/
def value? : Expression → Option Float
  | number literal => some literal.value
  | binary op left right => do operate? op (← left.value?) (← right.value?)
  | root argument => do
    let value ← argument.value?
    if value < 0 then none else some value.sqrt

end Expression

/-- An expression together with the parentheses around its parts. -/
inductive Written
  | number (literal : Literal)
  | group (inner : Written)
  | binary (op : Operator) (left right : Written)
  | root (argument : Written)

namespace Written

/-- The expression without its parentheses. -/
def expression : Written → Expression
  | number literal => .number literal
  | group inner => inner.expression
  | binary op left right => .binary op left.expression right.expression
  | root argument => .root argument.expression

/-- The normal form of what is written. -/
def text : Written → Text
  | number literal => literal.text
  | group inner => '(' :: inner.text ++ [')']
  | binary op left right => left.text ++ op.symbol :: right.text
  | root argument => '√' :: '(' :: argument.text ++ [')']

/-- The tier of what is written, which is that of the operator that is applied last; operands are
above all operators. -/
def tier : Written → Nat
  | binary op _ _ => Expression.tier op
  | _ => 4

/-- All parentheses that the tiers require are there: a left operand may be of the tier of its
operator, for all operators group to the left, and a right operand must be above it. -/
def Grouped : Written → Prop
  | number _ => True
  | group inner => inner.Grouped
  | binary op left right =>
    Expression.tier op ≤ left.tier ∧ Expression.tier op < right.tier ∧
      left.Grouped ∧ right.Grouped
  | root argument => argument.Grouped

/-- The value of what is written at a byte offset, or the fault of the first operation that has no
value: that of a division lies in its sign, that of a root in the whole root. -/
def evaluate (offset : Nat) : Written → Except Fault Float
  | number literal => .ok literal.value
  | group inner => inner.evaluate (offset + 1)
  | binary op left right => do
    let signOffset := offset + Text.bytes left.text
    let leftValue ← left.evaluate offset
    let rightValue ← right.evaluate (signOffset + 1)
    match Expression.operate? op leftValue rightValue with
    | some value => .ok value
    | none => .error ⟨.divisionByZero, .of signOffset [op.symbol]⟩
  | root argument => do
    let value ← argument.evaluate (offset + Text.bytes ['√', '('])
    if value < 0 then .error ⟨.negativeRoot value, .of offset (root argument).text⟩
    else .ok value.sqrt

/-- Parentheses do not change the value. -/
theorem toOption_evaluate (written : Written) (offset : Nat) :
    (written.evaluate offset).toOption = written.expression.value? := by
  induction written generalizing offset with
  | number => rfl
  | group inner ih => exact ih _
  | binary op left right ihleft ihright =>
    rw [expression, Expression.value?, ← ihleft offset,
      ← ihright (offset + Text.bytes left.text + 1), evaluate]
    cases left.evaluate offset with
    | error => rfl
    | ok leftValue =>
      cases right.evaluate (offset + Text.bytes left.text + 1) with
      | error => rfl
      | ok rightValue =>
        simp only [bind, Except.bind, Except.toOption, Option.bind]
        cases Expression.operate? op leftValue rightValue <;> rfl
  | root argument ih =>
    rw [expression, Expression.value?, ← ih (offset + Text.bytes ['√', '(']), evaluate]
    cases argument.evaluate (offset + Text.bytes ['√', '(']) with
    | error => rfl
    | ok value =>
      by_cases hnegative : value < 0 <;>
        simp [bind, Except.bind, Except.toOption, Option.bind, hnegative]

end Written

end Surd
