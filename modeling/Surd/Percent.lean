import Surd.Number

/-!
# The percent key

The percent key divides the last number of a text by a hundred where it stands. The number is found
from the left: it begins at the first place where a number can be read that only characters
without digits and points follow.
-/

namespace Surd

/-- A text cut at its last number. -/
structure LastNumber where
  before : Text
  number : Text
  after : Text
  deriving DecidableEq

namespace LastNumber

/-- Reads a plus or minus sign. -/
def sign : Text → Text × Text
  | c :: text => if c = '+' ∨ c = '-' then ([c], text) else ([], c :: text)
  | [] => ([], [])

/-- Reads digits that end in a digit and may have a point before it, as many as there are. -/
def decimal? (text : Text) : Option (Text × Text) :=
  let whole := text.takeWhile Char.isDigit
  let rest := text.dropWhile Char.isDigit
  let part := (rest.drop 1).takeWhile Char.isDigit
  if rest.head? = some '.' ∧ part ≠ [] then
    some (whole ++ '.' :: part, (rest.drop 1).dropWhile Char.isDigit)
  else if whole ≠ [] then some (whole, rest)
  else none

/-- Reads the last number where it stands at the front of a text. -/
def front? (text : Text) : Option LastNumber :=
  let (sign, rest) := sign text
  match decimal? rest with
  | some (digits, after) =>
    if after.any fun c => c.isDigit || c = '.' then none else some ⟨[], sign ++ digits, after⟩
  | none => none

/-- Cuts a text at its last number, if it has one. -/
def find? : Text → Option LastNumber
  | [] => none
  | c :: text =>
    match front? (c :: text) with
    | some found => some found
    | none => (find? text).map fun found => { found with before := c :: found.before }

/-- Splits a text before its longest end in which all characters pass a test. -/
def splitEnd (test : Char → Bool) (text : Text) : Text × Text :=
  ((text.reverse.dropWhile test).reverse, (text.reverse.takeWhile test).reverse)

/-- Cuts a text at its last number, found from the right: the characters after it have no digits and
points, and it is the longest end of what is before them that has digits, at most one point and
perhaps a sign in front. There is no number if a point or nothing stands before those
characters. -/
def findFromEnd? (text : Text) : Option LastNumber :=
  let (rest, after) := splitEnd (fun c => !(c.isDigit || c = '.')) text
  let (rest, part) := splitEnd Char.isDigit rest
  if part = [] then none
  else
    let (rest, digits) :=
      if rest.getLast? = some '.' then
        let (rest, whole) := splitEnd Char.isDigit rest.dropLast
        (rest, whole ++ '.' :: part)
      else (rest, part)
    match rest.getLast? with
    | some c =>
      if c = '+' ∨ c = '-' then some ⟨rest.dropLast, c :: digits, after⟩
      else some ⟨rest, digits, after⟩
    | none => some ⟨rest, digits, after⟩

/-- The text with the number divided by a hundred. A minus sign is part of the result; a plus sign
is written again, as it may separate the number from the one before it. -/
def scaled (found : LastNumber) (value : Float) : Text :=
  found.before ++ (if found.number.head? = some '+' then ['+'] else [])
    ++ Number.result (value / 100) ++ found.after

end LastNumber

/-- Divides the last number of a text by a hundred; a text without a number stays as it is, and an
empty one becomes `0`. -/
def percent (text : Text) : Text :=
  if text = [] ∨ text = ['0'] then ['0']
  else match LastNumber.find? text with
    | none => text
    | some found =>
      match Number.read? found.number with
      | none => text
      | some value => found.scaled value

end Surd
