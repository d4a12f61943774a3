import Surd.Stretch

/-!
# Scanning by places

A cursor scans a stretch of a text as a scanner does, but it keeps the text around the stretch and
finds every piece by the bytes at which the piece begins and ends. Such a place may lie behind the
end of the text or inside a character, and a count may fall below zero; a step that comes to this
has no result. A fault in the text is a result.
-/

namespace Surd

/-- The number of bytes in front of the first character of a kind, if there is one. -/
def Text.bytesBefore? (isEnd : Char → Bool) : Text → Option Nat
  | [] => none
  | c :: text => if isEnd c then some 0 else (bytesBefore? isEnd text).map (c.utf8Size + ·)

/-- A scanner that keeps the text in which its offset is a place. -/
structure Cursor extends Scanner where
  source : Text

namespace Cursor

/-- The cursor at the start of the stretch of a text that a span names. -/
def within? (source : Text) (span : Span) : Option Cursor :=
  (Scanner.within? source span).map fun scanner => ⟨scanner, source⟩

/-- Takes so many bytes off the front of the rest. -/
def advance? (cursor : Cursor) (length : Nat) : Option (Text × Cursor) := do
  let (literal, rest) ← Text.splitBytes? length cursor.rest
  some (literal, ⟨⟨cursor.offset + length, literal.getLast?, rest⟩, cursor.source⟩)

/-- Takes a percent sign off, if one is at the front, and divides by a hundred then. -/
def percent? (cursor : Cursor) (value : Float) : Option (Float × Cursor) :=
  if cursor.rest.head? = some '%' then do
    let (_, after) ← cursor.advance? 1
    some (value / 100, after)
  else some (value, cursor)

/-- Takes a number off the front, where `sign` is the number of bytes of its sign. The literal is
looked up in the text once all of it is taken. -/
def number? (cursor : Cursor) (sign : Nat) : Option (Except Fault Token × Cursor) := do
  let (_, text) ← Text.splitBytes? sign cursor.rest
  let digits := (Text.bytesBefore? (fun c => !Front.isNumeric c) text).getD
    (Text.bytes cursor.rest - sign)
  let (literal, after) ← cursor.advance? (sign + digits)
  match Number.read? literal with
  | none => some (.error ⟨.invalidNumber literal, .of cursor.offset literal⟩, after)
  | some value =>
    let (value, after) ← after.percent? value
    let literal ← Text.slice? cursor.source ⟨cursor.offset, after.offset⟩
    some (.ok ⟨.number value, literal, cursor.offset⟩, after)

/-- How many parentheses are open behind a character before which `balance` were. -/
def count? (balance : Nat) (c : Char) : Option Nat :=
  if c = '(' then some (balance + 1)
  else if c = ')' then if balance = 0 then none else some (balance - 1)
  else some balance

/-- Where in a text that stands at a place the last of the open parentheses is closed, if it is. -/
def closing? (balance place : Nat) : Text → Option (Option Nat)
  | [] => some none
  | c :: text => do
    let balance ← count? balance c
    if balance = 0 then some (some place) else closing? balance (place + c.utf8Size) text

/-- Takes a root off the front. Where its argument stands is counted from the root sign on. -/
def root? (cursor : Cursor) : Option (Except Fault Token × Cursor) := do
  let marker := '√'.utf8Size
  let (_, text) ← Text.splitBytes? marker cursor.rest
  if text.head? ≠ some '(' then
    some (.error ⟨.missingRootParen, ⟨cursor.offset, cursor.offset + marker⟩⟩, cursor)
  else
    let (_, inner) ← Text.splitBytes? (marker + 1) cursor.rest
    match ← closing? 1 0 inner with
    | none =>
      let stop := cursor.offset + Text.bytes cursor.rest
      some (.error ⟨.unterminatedRoot, ⟨cursor.offset, stop⟩⟩, cursor)
    | some place =>
      let close := marker + 1 + place
      let body ← Text.slice? cursor.source ⟨cursor.offset + marker + 1, cursor.offset + close⟩
      let (literal, after) ← cursor.advance? (close + 1)
      some (.ok ⟨.root body, literal, cursor.offset⟩, after)

/-- What a character means that is a token by itself, given the character before it. -/
def single? (previous : Option Char) (c : Char) : Option Token.Kind :=
  if c = '(' then some .leftParen
  else if c = ')' then some .rightParen
  else if c = '-' ∧ Front.signAllowed previous then none
  else (Operator.ofSymbol? c).map .operator

/-- Takes off the front what begins with a character that is no token by itself. -/
def longer? (cursor : Cursor) (c : Char) : Option (Except Fault Token × Cursor) :=
  if c = '-' then cursor.number? 1
  else if Front.isNumeric c then cursor.number? 0
  else if c = '√' then cursor.root?
  else
    let span := ⟨cursor.offset, cursor.offset + c.utf8Size⟩
    some (.error ⟨.unexpectedCharacter c, span⟩, cursor)

/-- The next token or fault, and the cursor after it. Nothing is left to read after a fault. -/
def next? (cursor : Cursor) : Option (Option (Except Fault Token) × Cursor) :=
  match cursor.rest with
  | [] => some (none, cursor)
  | c :: _ =>
    match single? cursor.previous c with
    | some kind => do
      let (literal, after) ← cursor.advance? 1
      some (some (.ok ⟨kind, literal, cursor.offset⟩), after)
    | none => do
      let (item, after) ← cursor.longer? c
      match item with
      | .ok token => some (some (.ok token), after)
      | .error fault => some (some (.error fault), { after with rest := [] })

/-- The cursor after so many steps. -/
def steps? : Nat → Cursor → Option Cursor
  | 0, cursor => some cursor
  | n + 1, cursor => do
    let (_, after) ← cursor.next?
    steps? n after

/-- The cursors that steps lead to which yield no fault. -/
inductive Reaches (start : Cursor) : Cursor → Prop
  | start : Reaches start start
  | step {cursor after : Cursor} {item : Option (Except Fault Token)}
    (hreaches : Reaches start cursor) (hnext : cursor.next? = some (item, after))
    (hitem : ∀ fault, item ≠ some (.error fault)) : Reaches start after

end Cursor

end Surd
