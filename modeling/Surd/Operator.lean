/-!
# Binary operators

Powers bind tighter than products and quotients, and these tighter than sums and differences.
Operators of equal precedence group to the left, powers too.
-/

namespace Surd

/-- A binary operator. -/
inductive Operator
  | add
  | sub
  | mul
  | div
  | pow
  deriving DecidableEq, Repr

namespace Operator

/-- How tightly an operator binds; the higher one is applied first. -/
def precedence : Operator → Nat
  | add | sub => 1
  | mul | div => 2
  | pow => 4

/-- The character that writes an operator. -/
def symbol : Operator → Char
  | add => '+'
  | sub => '-'
  | mul => '*'
  | div => '/'
  | pow => '^'

/-- The operator that a character writes. -/
def ofSymbol? : Char → Option Operator
  | '+' => some add
  | '-' => some sub
  | '*' => some mul
  | '/' => some div
  | '^' => some pow
  | _ => none

/-- A character is read as the operator that it writes, and as no other. -/
theorem ofSymbol?_eq_some_iff {c : Char} {op : Operator} :
    ofSymbol? c = some op ↔ c = op.symbol := by
  constructor
  · intro h
    unfold ofSymbol? at h
    split at h <;> cases h <;> rfl
  · rintro rfl
    cases op <;> rfl

/-- The value of an operator where it has one: a divisor must not be zero, of either sign. The power
with exponent zero, of either sign, is one for every base. -/
def value? (op : Operator) (left right : Float) : Option Float :=
  match op with
  | add => some (left + right)
  | sub => some (left - right)
  | mul => some (left * right)
  | div => if right == 0 then none else some (left / right)
  | pow => some (if right == 0 then 1 else left ^ right)

end Operator

end Surd
