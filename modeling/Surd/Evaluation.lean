import Surd.Token.Scanner
import Surd.Normal

/-!
# Evaluation

A frame is a stretch of text with a value of its own: a whole text, or the argument of a square
root. Its tokens are read once, from left to right, onto a stack of operands and a stack of
operators that still wait for one. An operator is applied when one that binds no tighter follows,
when its group is closed, or at the end. `Frame.evaluate_eq` describes the value of a frame in
terms of the values of the roots in it.
-/

namespace Surd

/-- What waits on the operator stack: an open group, or an operator. -/
inductive Pending
  | group
  | operator (op : Operator)
  deriving DecidableEq

/-- The operands, and what waits for operands together with its offset; the last one first. -/
structure Stacks where
  operands : List Float
  pending : List (Pending × Nat)

namespace Stacks

/-- Nothing read yet. -/
def empty : Stacks := ⟨[], []⟩

/-- A fault in the one character at an offset. -/
def faultAt (offset : Nat) (cause : Cause) : Fault := ⟨cause, ⟨offset, offset + 1⟩⟩

/-- Applies an operator to the last two operands. -/
def apply (op : Operator) (offset : Nat) : List Float → Except Fault (List Float)
  | right :: left :: operands =>
    match op.value? left right with
    | some value => .ok (value :: operands)
    | none => .error (faultAt offset .divisionByZero)
  | _ => .error (faultAt offset (.missingOperand op))

/-- Applies the waiting operators back to the last open group, as long as they bind at least as
tightly as the given precedence. -/
def reduce (precedence : Nat) :
    List (Pending × Nat) → List Float → Except Fault Stacks
  | (.operator op, offset) :: pending, operands =>
    if op.precedence < precedence then .ok ⟨operands, (.operator op, offset) :: pending⟩
    else do reduce precedence pending (← apply op offset operands)
  | pending, operands => .ok ⟨operands, pending⟩

/-- Applies the operators of the last open group and closes it; `close` is where that is asked
for. -/
def closeGroup (close : Span) : List (Pending × Nat) → List Float → Except Fault Stacks
  | (.operator op, offset) :: pending, operands => do
    closeGroup close pending (← apply op offset operands)
  | (.group, _) :: pending, operands => .ok ⟨operands, pending⟩
  | [], _ => .error ⟨.unmatchedClose, close⟩

/-- Applies all operators that still wait at the end. -/
def finish : List (Pending × Nat) → List Float → Except Fault (List Float)
  | (.operator op, offset) :: pending, operands => do
    finish pending (← apply op offset operands)
  | (.group, offset) :: _, _ => .error (faultAt offset .unclosedParen)
  | [], operands => .ok operands

/-- The value that is left at the end in a frame that covers a span. -/
def single (span : Span) : List Float → Except Fault Float
  | [value] => .ok value
  | [] => .error ⟨.emptyExpression, span⟩
  | operands => .error ⟨.missingOperator operands.length, span⟩

end Stacks

/-- A stretch of text that has a value of its own, and the byte offset at which it stands. -/
structure Frame where
  offset : Nat
  text : Text

namespace Frame

/-- The frame of a text that stands alone. -/
def whole (text : Text) : Frame := ⟨0, text⟩

/-- Where a frame stands. -/
def span (frame : Frame) : Span := .of frame.offset frame.text

/-- The tokens of a frame. -/
def scan (frame : Frame) : Scan := .of frame.offset frame.text

/-- The argument of a root token, as a frame. -/
def ofRoot (token : Token) (body : Text) : Frame :=
  ⟨token.offset + Text.bytes Token.rootOpening, body⟩

/-- The square root of a value, which must not be below zero. -/
def rootOf (token : Token) (value : Float) : Except Fault Float :=
  if value < 0 then .error ⟨.negativeRoot value, token.span⟩ else .ok value.sqrt

/-- Reads one token onto the stacks, with `argument` as the values of frames in roots. -/
def feed (argument : Frame → Except Fault Float) (waiting : Stacks) (token : Token) :
    Except Fault Stacks :=
  match token.kind with
  | .number value => .ok { waiting with operands := value :: waiting.operands }
  | .root body => do
    let value ← rootOf token (← argument (ofRoot token body))
    .ok { waiting with operands := value :: waiting.operands }
  | .leftParen => .ok { waiting with pending := (.group, token.offset) :: waiting.pending }
  | .rightParen => Stacks.closeGroup token.span waiting.pending waiting.operands
  | .operator op => do
    let reduced ← Stacks.reduce op.precedence waiting.pending waiting.operands
    .ok { reduced with pending := (.operator op, token.offset) :: reduced.pending }

/-- The value of a frame, with `argument` as the values of frames in roots. A fault of the scan is
met only when all tokens before it have been read. -/
def evaluateWith (argument : Frame → Except Fault Float) (frame : Frame) : Except Fault Float := do
  let waiting ← frame.scan.tokens.foldlM (feed argument) .empty
  match frame.scan.fault with
  | some fault => .error fault
  | none => Stacks.single frame.span (← Stacks.finish waiting.pending waiting.operands)

/-- The value of a frame. The argument of a root is shorter than the frame that it stands in, so the
test for that never fails; it shows that evaluation ends. -/
def evaluate (frame : Frame) : Except Fault Float :=
  evaluateWith (fun argument =>
    if argument.text.length < frame.text.length then evaluate argument
    else .error ⟨.emptyExpression, argument.span⟩) frame
termination_by frame.text.length

/-- Only the values of the roots in a frame matter for its value. -/
theorem evaluateWith_congr_roots {first second : Frame → Except Fault Float} {frame : Frame}
    (h : ∀ token ∈ frame.scan.tokens, ∀ body, token.kind = .root body →
      first (ofRoot token body) = second (ofRoot token body)) :
    evaluateWith first frame = evaluateWith second frame := by
  have hfeed (waiting : Stacks) (token : Token) (hmem : token ∈ frame.scan.tokens) :
      feed first waiting token = feed second waiting token := by
    cases hroot : token.kind with
    | root body => simp only [feed, hroot, h token hmem body hroot]
    | _ => simp only [feed, hroot]
  have hfold (tokens : List Token) (hmem : ∀ token ∈ tokens, token ∈ frame.scan.tokens)
      (waiting : Stacks) :
      tokens.foldlM (feed first) waiting = tokens.foldlM (feed second) waiting := by
    induction tokens generalizing waiting with
    | nil => rfl
    | cons token tokens ih =>
      rw [List.foldlM_cons, List.foldlM_cons, hfeed _ _ (hmem token List.mem_cons_self)]
      congr 1
      funext waiting
      exact ih (fun token h => hmem token (List.mem_cons_of_mem _ h)) waiting
  unfold evaluateWith
  rw [hfold _ fun _ h => h]

/-- Only the values of shorter frames matter for the value of a frame. -/
theorem evaluateWith_congr {first second : Frame → Except Fault Float} {frame : Frame}
    (h : ∀ argument : Frame, argument.text.length < frame.text.length →
      first argument = second argument) :
    evaluateWith first frame = evaluateWith second frame :=
  evaluateWith_congr_roots fun token hmem body hroot =>
    h (ofRoot token body) (Scan.length_body_lt _ hmem hroot)

/-- The value of a frame is computed from the values of the roots in it. -/
theorem evaluate_eq (frame : Frame) : evaluate frame = evaluateWith evaluate frame := by
  rw [evaluate]
  exact evaluateWith_congr fun argument hshorter => if_pos hshorter

end Frame

/-- The value of a text that is in normal form, or the diagnostic of its first fault. -/
def evaluateNormal (text : Text) : Except Diagnostic Float :=
  (Frame.whole text).evaluate.mapError (Fault.within text)

/-- The value of a text, or the diagnostic of the first fault of its normal form. -/
def evaluate (text : Text) : Except Diagnostic Float := evaluateNormal (normalize text)

end Surd
