import Surd.Number.Decimal

/-!
# Numbers as text

A number is read from an optional sign and a decimal, and written with the fewest digits that read
back, never with an exponent; `Surd.Number.RoundTrip` shows that they do. A result is written like
any number, except that zero has no sign.
-/

namespace Surd.Number

/-- Reads a decimal with an optional sign in front, rounded to the nearest number. -/
def read? : Text → Option Float
  | '-' :: rest => (Decimal.ofText? rest).map fun decimal => Binary64.toFloat true decimal.nearest
  | '+' :: rest => (Decimal.ofText? rest).map fun decimal => Binary64.toFloat false decimal.nearest
  | text => (Decimal.ofText? text).map fun decimal => Binary64.toFloat false decimal.nearest

/-- The text of a pattern up to infinity. -/
def magnitudeText (pattern : Nat) : Text :=
  if pattern = Binary64.infinity then ['i', 'n', 'f']
  else if pattern = 0 then ['0']
  else (Decimal.shortest pattern).toText

/-- The text of a number: a minus sign if its sign bit is set, then its magnitude; what is not a
number has no sign. -/
def text (x : Float) : Text :=
  let pattern := Binary64.pattern x
  if Binary64.infinity < pattern then ['N', 'a', 'N']
  else if Binary64.isNegative x then '-' :: magnitudeText pattern
  else magnitudeText pattern

/-- The text of a result, in which both zeros are `0`. -/
def result (x : Float) : Text := if x == 0 then ['0'] else text x

end Surd.Number
