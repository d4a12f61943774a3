import Surd.Token

/-!
# The token at the front of a text

What stands at the front of a text depends on the text and on the character before it, not on
where it stands: a minus sign is part of a number unless a number, a closing parenthesis or a root
stands before it. Whatever is read, nothing of the text is lost (`literal_append_rest`).
-/

namespace Surd

/-- What was read at the front of a text: the characters that it covers, what they mean or what is
wrong with them, and the characters after them. -/
structure Front where
  reading : Except Cause Token.Kind
  literal : Text
  rest : Text

namespace Front

/-- The characters that make up the digits and points of a number. -/
def isNumeric (c : Char) : Bool := c.isDigit || c = '.'

/-- The number that a literal stands for, divided by a hundred if a percent sign follows, which then
belongs to the literal. -/
def ofLiteral (literal rest : Text) : Front :=
  match Number.read? literal with
  | none => ⟨.error (.invalidNumber literal), literal, rest⟩
  | some value =>
    match rest with
    | '%' :: rest => ⟨.ok (.number (value / 100)), literal ++ ['%'], rest⟩
    | rest => ⟨.ok (.number value), literal, rest⟩

/-- Reads a number: a sign that stands before the text, then as many digits and points as there
are. -/
def number (sign text : Text) : Front :=
  ofLiteral (sign ++ text.takeWhile isNumeric) (text.dropWhile isNumeric)

/-- Splits the text after an opening parenthesis at the one that closes it, where `depth` counts the
parentheses opened since; the closing parenthesis belongs to neither part. -/
def splitClose (depth : Nat) : Text → Option (Text × Text)
  | [] => none
  | c :: text =>
    if c = ')' then
      match depth with
      | 0 => some ([], text)
      | depth + 1 => (splitClose depth text).map fun (body, rest) => (c :: body, rest)
    else
      (splitClose (if c = '(' then depth + 1 else depth) text).map fun (body, rest) =>
        (c :: body, rest)

/-- Reads a root from what follows the root sign. -/
def root : Text → Front
  | '(' :: text =>
    match splitClose 0 text with
    | some (body, rest) => ⟨.ok (.root body), '√' :: '(' :: body ++ [')'], rest⟩
    | none => ⟨.error .unterminatedRoot, '√' :: '(' :: text, []⟩
  | text => ⟨.error .missingRootParen, ['√'], text⟩

/-- Whether a minus sign after the given character is the sign of a number. -/
def signAllowed : Option Char → Bool
  | none => true
  | some c => c = '(' || (Operator.ofSymbol? c).isSome

/-- Reads what stands at the front of a text, given the character before it, its first character
and the others. -/
def read (previous : Option Char) (c : Char) (text : Text) : Front :=
  if c = '(' then ⟨.ok .leftParen, [c], text⟩
  else if c = ')' then ⟨.ok .rightParen, [c], text⟩
  else if c = '-' ∧ signAllowed previous then number [c] text
  else if isNumeric c then number [] (c :: text)
  else if c = '√' then root text
  else match Operator.ofSymbol? c with
    | some op => ⟨.ok (.operator op), [c], text⟩
    | none => ⟨.error (.unexpectedCharacter c), [c], text⟩

/-- Nothing is lost when a literal takes its percent sign. -/
theorem ofLiteral_literal_append_rest (literal rest : Text) :
    (ofLiteral literal rest).literal ++ (ofLiteral literal rest).rest = literal ++ rest := by
  unfold ofLiteral
  split
  · rfl
  · split <;> simp

/-- Nothing is lost when a number is read. -/
theorem number_literal_append_rest (sign text : Text) :
    (number sign text).literal ++ (number sign text).rest = sign ++ text := by
  simp [number, ofLiteral_literal_append_rest, List.takeWhile_append_dropWhile]

/-- The two parts and the closing parenthesis between them make up the text. -/
theorem eq_of_splitClose {depth : Nat} {text body rest : Text}
    (h : splitClose depth text = some (body, rest)) : text = body ++ ')' :: rest := by
  induction text generalizing depth body with
  | nil => simp [splitClose] at h
  | cons c text ih =>
    have hstep {depth : Nat}
        (h : (splitClose depth text).map (fun (body, rest) => (c :: body, rest)) =
          some (body, rest)) : c :: text = body ++ ')' :: rest := by
      obtain ⟨⟨inner, after⟩, hfound, hparts⟩ := Option.map_eq_some_iff.1 h
      cases hparts
      simp [ih hfound]
    unfold splitClose at h
    split at h
    next hclose =>
      split at h
      next =>
        cases h
        simp [hclose]
      next => exact hstep h
    next => exact hstep h

/-- Nothing is lost when a root is read. -/
theorem root_literal_append_rest (text : Text) :
    (root text).literal ++ (root text).rest = '√' :: text := by
  unfold root
  split
  next text =>
    split
    next body rest hfound => simp [eq_of_splitClose hfound]
    next => simp
  next => simp

/-- What is read and what is left make up the text. -/
theorem literal_append_rest (previous : Option Char) (c : Char) (text : Text) :
    (read previous c text).literal ++ (read previous c text).rest = c :: text := by
  unfold read
  split
  · simp
  split
  · simp
  split
  · simp [number_literal_append_rest]
  split
  · simp [number_literal_append_rest]
  split
  next h => simp [root_literal_append_rest, h]
  next => split <;> simp

/-- A number that has a sign, a digit or a point has a literal. -/
theorem number_literal_ne_nil {sign text : Text}
    (h : sign ++ text.takeWhile isNumeric ≠ []) : (number sign text).literal ≠ [] := by
  unfold number ofLiteral
  split
  · exact h
  · split
    · simp
    · exact h

/-- Something is always read. -/
theorem literal_ne_nil (previous : Option Char) (c : Char) (text : Text) :
    (read previous c text).literal ≠ [] := by
  unfold read
  split
  · simp
  split
  · simp
  split
  · exact number_literal_ne_nil (by simp)
  split
  next h => exact number_literal_ne_nil (by simp [List.takeWhile, h])
  split
  · unfold root
    split
    · split <;> simp
    · simp
  · split <;> simp

/-- The literal of a root is its argument between `√(` and `)`. -/
theorem literal_of_root {previous : Option Char} {c : Char} {text body : Text}
    (h : (read previous c text).reading = .ok (.root body)) :
    (read previous c text).literal = Token.rootOpening ++ body ++ [')'] := by
  have hnumber (sign text : Text) : (number sign text).reading ≠ .ok (.root body) := by
    unfold Front.number ofLiteral
    split
    · simp
    · split <;> simp
  unfold read at h ⊢
  split at h
  · cases h
  split at h
  · cases h
  split at h
  · exact absurd h (hnumber _ _)
  split at h
  · exact absurd h (hnumber _ _)
  split at h
  next =>
    unfold root at h ⊢
    split at h
    next =>
      split at h
      next hfound =>
        cases h
        simp [*, Token.rootOpening, show isNumeric '√' = false by decide]
      next => cases h
    next => cases h
  next => split at h <;> cases h

/-- What is left is shorter than the text. -/
theorem length_rest_lt (previous : Option Char) (c : Char) (text : Text) :
    (read previous c text).rest.length < (c :: text).length := by
  have hwhole := congrArg List.length (literal_append_rest previous c text)
  have hliteral := List.length_pos_iff.2 (literal_ne_nil previous c text)
  simp only [List.length_append] at hwhole
  omega

end Front

end Surd
