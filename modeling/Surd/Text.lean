/-!
# Text

A text is the list of its characters. Positions in it are counted in bytes of its UTF-8 form, so
that a span can be handed to any program that holds the same text as bytes; `bytes_append` is the
fact that all arithmetic on positions rests on.
-/

namespace Surd

/-- A text, as the list of its characters. -/
abbrev Text := List Char

/-- The number of bytes of a text in UTF-8. -/
def Text.bytes : Text → Nat
  | [] => 0
  | c :: rest => c.utf8Size + bytes rest

/-- An empty text has no bytes. -/
@[simp] theorem Text.bytes_nil : Text.bytes [] = 0 := rfl

/-- The bytes of a text are counted character by character. -/
@[simp] theorem Text.bytes_cons (c : Char) (rest : Text) :
    Text.bytes (c :: rest) = c.utf8Size + Text.bytes rest := rfl

/-- The bytes of a concatenation are the bytes of its parts. -/
@[simp] theorem Text.bytes_append (left right : Text) :
    Text.bytes (left ++ right) = Text.bytes left + Text.bytes right := by
  induction left with
  | nil => simp
  | cons c left ih => simp [ih, Nat.add_assoc]

/-- A stretch of a text, from the byte offset `start` up to, not including, `stop`. -/
structure Span where
  start : Nat
  stop : Nat
  deriving DecidableEq, Repr

/-- The number of bytes that a span covers. -/
def Span.length (span : Span) : Nat := span.stop - span.start

/-- The span of `piece` when it stands at byte `start`. -/
def Span.of (start : Nat) (piece : Text) : Span := ⟨start, start + Text.bytes piece⟩

/-- The span that covers the whole of a text. -/
def Span.whole (text : Text) : Span := .of 0 text

/-- `span.Marks source piece` says that the bytes of `source` in `span` are those of `piece`, and
that both ends of the span lie between characters. -/
def Span.Marks (span : Span) (source piece : Text) : Prop :=
  ∃ before after, source = before ++ piece ++ after ∧ span = .of (Text.bytes before) piece

end Surd
