import Surd.Text.Blank

/-!
# Normal form

The normal form of a text has no blank characters and writes each square root with a root sign in
place of the letters. Positions in diagnostics are positions in the normal form.
-/

namespace Surd

/-- Writes a root sign for the letters of each `sqrt` that a parenthesis follows. -/
def markRoots : Text → Text
  | 's' :: 'q' :: 'r' :: 't' :: '(' :: rest => '√' :: '(' :: markRoots rest
  | c :: rest => c :: markRoots rest
  | [] => []

/-- Writes the letters of `sqrt` for each root sign that a parenthesis follows. -/
def spellRoots : Text → Text
  | '√' :: '(' :: rest => 's' :: 'q' :: 'r' :: 't' :: '(' :: spellRoots rest
  | c :: rest => c :: spellRoots rest
  | [] => []

/-- The normal form of a text. -/
def normalize (text : Text) : Text := markRoots (Text.squeeze text)

end Surd
