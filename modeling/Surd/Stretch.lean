import Surd.Evaluation

/-!
# Stretches of a text

A span names a stretch of a text by the bytes at which it begins and ends. Where one of these lies
inside a character there is no stretch. A stretch can be evaluated in the text around it, and the
argument of a root in it is then a stretch of that text again, of which only the span is handed on.
-/

namespace Surd

namespace Text

/-- Splits a text after so many bytes, if that is between two characters. -/
def splitBytes? : Nat → Text → Option (Text × Text)
  | 0, text => some ([], text)
  | _ + 1, [] => none
  | n + 1, c :: text =>
    if c.utf8Size ≤ n + 1 then
      (splitBytes? (n + 1 - c.utf8Size) text).map fun (front, rest) => (c :: front, rest)
    else none

/-- The stretch of a text that a span names, if there is one. -/
def slice? (source : Text) (span : Span) : Option Text :=
  if span.start ≤ span.stop then do
    let (_, rest) ← splitBytes? span.start source
    let (piece, _) ← splitBytes? span.length rest
    some piece
  else none

end Text

/-- The scanner over the stretch of a text that a span names. -/
def Scanner.within? (source : Text) (span : Span) : Option Scanner :=
  (Text.slice? source span).map (start span.start)

/-- What a scanner yields, with each fault shown in the text in which the scanner stands. -/
def Scanner.diagnoses (source : Text) (scanner : Scanner) : List (Except Diagnostic Token) :=
  scanner.items.map fun item => item.mapError (Fault.within source)

/-- The value of a stretch of a text, where the arguments of roots are looked up in that text. Such
an argument is always a stretch, and shorter than the one that the root stands in. -/
def evaluateStretch (source : Text) (span : Span) : Except Fault Float :=
  match Text.slice? source span with
  | none => .error ⟨.emptyExpression, span⟩
  | some piece =>
    Frame.evaluateWith (fun argument =>
      if argument.span.length < span.length then evaluateStretch source argument.span
      else .error ⟨.emptyExpression, argument.span⟩) ⟨span.start, piece⟩
termination_by span.length

end Surd
