import Surd.Text.Blank

/-!
# Lines

A line ends at a line feed, which does not belong to it; what follows the last line feed is a line
unless it is empty. A carriage return before the line feed is blank, so it disappears when the
line is trimmed, and a carriage return elsewhere ends no line. The same rule is used on texts and
on byte strings.
-/

namespace Surd

/-- The lines of a list, cut after each element that `isEnd` accepts. -/
def linesOf {α : Type} (isEnd : α → Bool) : List α → List (List α)
  | [] => []
  | x :: rest =>
    if isEnd x then [] :: linesOf isEnd rest
    else match linesOf isEnd rest with
      | [] => [[x]]
      | line :: lines => (x :: line) :: lines

/-- The lines of a text. -/
def Text.lines (text : Text) : List Text := linesOf (· = '\n') text

/-- A string of bytes, which need not be valid UTF-8. -/
abbrev Bytes := List UInt8

/-- The lines of a byte string. -/
def Bytes.lines (bytes : Bytes) : List Bytes := linesOf (· = 10) bytes

/-- The text that a byte string encodes in UTF-8, if it is valid. -/
def Bytes.decode? (bytes : Bytes) : Option Text :=
  (String.fromUTF8? ⟨bytes.toArray⟩).map String.toList

end Surd
