import Surd.Text

/-!
# Blank characters

The blank characters are those with the Unicode property `White_Space`. Calculations are written
without them (`squeeze`), and lines are read without the ones at their ends (`trim`).
-/

namespace Surd

/-- The code points with the property `White_Space`, as inclusive ranges in ascending order. -/
def blankRanges : List (Nat × Nat) :=
  [(0x0009, 0x000D), (0x0020, 0x0020), (0x0085, 0x0085), (0x00A0, 0x00A0), (0x1680, 0x1680),
   (0x2000, 0x200A), (0x2028, 0x2029), (0x202F, 0x202F), (0x205F, 0x205F), (0x3000, 0x3000)]

/-- Whether a character has the property `White_Space`. -/
def isBlank (c : Char) : Bool :=
  blankRanges.any fun (low, high) => low ≤ c.toNat && c.toNat ≤ high

/-- What is white space in ASCII is blank. -/
theorem isBlank_of_isWhitespace {c : Char} (h : c.isWhitespace = true) : isBlank c = true := by
  simp only [Char.isWhitespace, Bool.or_eq_true, decide_eq_true_eq] at h
  rcases h with ((rfl | rfl) | rfl) | rfl <;> decide

/-- A text without its blank characters. -/
def Text.squeeze (text : Text) : Text := text.filter fun c => !isBlank c

/-- A text without the blank characters at its front. -/
def Text.trimStart (text : Text) : Text := text.dropWhile isBlank

/-- A text without the blank characters at its front and at its end. -/
def Text.trim (text : Text) : Text := (Text.trimStart (Text.trimStart text).reverse).reverse

end Surd
