import Surd.Number

/-!
# Literals

A literal is a number as it is written in a calculation: digits with at most one point, perhaps
with a minus sign in front and a percent sign behind. Its value is that of the decimal, rounded,
negated and divided by a hundred as the signs say.
-/

namespace Surd

/-- A number as it is written: the digits before the point, those after it if there is one, and the
signs around them. -/
structure Literal where
  negative : Bool
  whole : List (Fin 10)
  part : Option (List (Fin 10))
  percent : Bool
  /-- There is a digit, before or after the point. -/
  some_digit : whole ++ part.getD [] ≠ []

namespace Literal

/-- The characters of digits. -/
def digitsText (digits : List (Fin 10)) : Text := digits.map fun digit => Nat.digitChar digit.val

/-- The number that digits stand for. -/
def digitsValue (digits : List (Fin 10)) : Nat := digits.foldl (fun n digit => 10 * n + digit.val) 0

/-- The text of a literal up to the percent sign. -/
def unscaledText (literal : Literal) : Text :=
  (if literal.negative then ['-'] else []) ++ digitsText literal.whole ++
    match literal.part with
    | none => []
    | some part => '.' :: digitsText part

/-- The text of a literal. -/
def text (literal : Literal) : Text :=
  literal.unscaledText ++ if literal.percent then ['%'] else []

/-- The decimal that the digits of a literal stand for. -/
def decimal (literal : Literal) : Decimal :=
  ⟨digitsValue (literal.whole ++ literal.part.getD []), (literal.part.getD []).length⟩

/-- The number nearest to a literal before a percent sign is heeded. -/
def unscaled (literal : Literal) : Float :=
  Binary64.toFloat literal.negative literal.decimal.nearest

/-- The value of a literal. -/
def value (literal : Literal) : Float :=
  if literal.percent then literal.unscaled / 100 else literal.unscaled

end Literal

end Surd
