import Surd.Proofs.Evaluation.Frames
import Surd.Proofs.Token.Concatenation

/-!
# Moving a frame

A frame that stands further behind has the same tokens further behind, and is evaluated in the same
way: to the same value, or to the same fault as much further behind (`Frame.evaluate_shift`). Every
step of the evaluation moves along with the tokens and with what waits on the stacks.
-/

namespace Surd

open Front

/-- A span that is moved by `n` bytes. -/
def Span.shift (n : Nat) (span : Span) : Span := ⟨span.start + n, span.stop + n⟩

/-- The same fault in a span that is moved. -/
def Fault.shift (n : Nat) (fault : Fault) : Fault := ⟨fault.cause, fault.span.shift n⟩

/-- The same token at another place. -/
def Token.shift (n : Nat) (token : Token) : Token := { token with offset := token.offset + n }

/-- A scan whose tokens and fault are moved. -/
def Scan.shift (n : Nat) (scan : Scan) : Scan :=
  ⟨scan.tokens.map (Token.shift n), scan.fault.map (Fault.shift n)⟩

/-- The same operator or group with its place moved. -/
def shiftEntry (n : Nat) (entry : Pending × Nat) : Pending × Nat := (entry.1, entry.2 + n)

/-- Stacks on which what waits stands at moved places. -/
def Stacks.shift (n : Nat) (waiting : Stacks) : Stacks :=
  ⟨waiting.operands, waiting.pending.map (shiftEntry n)⟩

/-- The same text at another place. -/
def Frame.shift (n : Nat) (frame : Frame) : Frame := { frame with offset := frame.offset + n }

/-- A computation whose fault is moved, and whose result is moved by `move`. -/
def shiftResult {α : Type} (n : Nat) (move : α → α) : Except Fault α → Except Fault α
  | .ok a => .ok (move a)
  | .error fault => .error (fault.shift n)

variable {n : Nat}

/-- If both steps of a computation move, so does the whole of it. -/
theorem shiftResult_bind {α β : Type} {move : α → α} {move' : β → β} {first : Except Fault α}
    {next : α → Except Fault β} {next' : α → Except Fault β}
    (hnext : ∀ a, next' (move a) = shiftResult n move' (next a)) :
    shiftResult n move first >>= next' = shiftResult n move' (first >>= next) := by
  cases first with
  | ok a => exact hnext a
  | error fault => rfl

/-- What has numbers for results moves in its fault only. -/
theorem shiftResult_id {α : Type} (result : Except Fault α) :
    shiftResult n id result = result.mapError (Fault.shift n) := by
  cases result <;> rfl

/-- The span of a piece moves with the place where the piece starts. -/
theorem Span.of_add (n start : Nat) (piece : Text) :
    Span.of (start + n) piece = (Span.of start piece).shift n := by
  simp only [of, shift, Nat.add_right_comm]

/-- The tokens of a text move with it. -/
theorem Scanner.scan_shift (n offset : Nat) (previous : Option Char) (text : Text) :
    scan ⟨offset + n, previous, text⟩ = (scan ⟨offset, previous, text⟩).shift n := by
  induction offset, previous, text using scan_induction with
  | nil offset previous =>
    rw [scan_nil, scan_nil]
    rfl
  | fault offset previous c text cause hread =>
    rw [scan_of_error hread, scan_of_error hread, Span.of_add]
    rfl
  | token offset previous c text kind hread ih =>
    rw [scan_of_ok hread, scan_of_ok hread, Nat.add_right_comm, ih]
    rfl

namespace Stacks

/-- A fault in a single character moves with the character. -/
theorem faultAt_add (offset : Nat) (cause : Cause) :
    faultAt (offset + n) cause = (faultAt offset cause).shift n := by
  simp only [faultAt, Fault.shift, Span.shift, Nat.add_right_comm]

/-- An operator that stands further behind gives the same value, or the moved fault. -/
theorem apply_shift (op : Operator) (offset : Nat) (operands : List Float) :
    apply op (offset + n) operands = shiftResult n id (apply op offset operands) := by
  match operands with
  | right :: left :: operands =>
    simp only [apply, faultAt_add]
    cases op.value? left right with
    | some value => rfl
    | none => rfl
  | [] | [_] =>
    simp only [apply, faultAt_add]
    rfl

/-- Making room for an operator leaves moved stacks, or the moved fault. -/
theorem reduce_shift (precedence : Nat) (pending : List (Pending × Nat)) (operands : List Float) :
    reduce precedence (pending.map (shiftEntry n)) operands =
      shiftResult n (shift n) (reduce precedence pending operands) := by
  induction pending generalizing operands with
  | nil => rfl
  | cons entry pending ih =>
    obtain ⟨waiting, offset⟩ := entry
    cases waiting with
    | group => rfl
    | operator op =>
      simp only [List.map_cons, shiftEntry, reduce]
      split
      · rfl
      · rw [apply_shift]
        exact shiftResult_bind fun operands => ih operands

/-- Closing a group leaves moved stacks, or the moved fault. -/
theorem closeGroup_shift (close : Span) (pending : List (Pending × Nat)) (operands : List Float) :
    closeGroup (close.shift n) (pending.map (shiftEntry n)) operands =
      shiftResult n (shift n) (closeGroup close pending operands) := by
  induction pending generalizing operands with
  | nil => rfl
  | cons entry pending ih =>
    obtain ⟨waiting, offset⟩ := entry
    cases waiting with
    | group => rfl
    | operator op =>
      simp only [List.map_cons, shiftEntry, closeGroup, apply_shift]
      exact shiftResult_bind fun operands => ih operands

/-- Applying moved operators leaves the same operands, or the moved fault. -/
theorem finish_shift (pending : List (Pending × Nat)) (operands : List Float) :
    finish (pending.map (shiftEntry n)) operands = shiftResult n id (finish pending operands) := by
  induction pending generalizing operands with
  | nil => rfl
  | cons entry pending ih =>
    obtain ⟨waiting, offset⟩ := entry
    cases waiting with
    | group => exact congrArg Except.error (faultAt_add offset .unclosedParen)
    | operator op =>
      simp only [List.map_cons, shiftEntry, finish, apply_shift]
      exact shiftResult_bind fun operands => ih operands

/-- What moved stacks come to at the end is the same value, or the moved fault. -/
theorem conclude_shift (span : Span) (waiting : Stacks) :
    (waiting.shift n).conclude (span.shift n) = shiftResult n id (waiting.conclude span) := by
  rw [conclude, shift, finish_shift]
  refine shiftResult_bind fun operands => ?_
  rcases operands with _ | ⟨value, _ | ⟨other, operands⟩⟩
  · rfl
  · rfl
  · rfl

end Stacks

namespace Frame

/-- A moved root gives the same value, or the moved fault. -/
theorem rootOf_shift (token : Token) (value : Float) :
    rootOf (token.shift n) value = shiftResult n id (rootOf token value) := by
  have hspan : (token.shift n).span = token.span.shift n := Span.of_add n token.offset token.literal
  simp only [rootOf, hspan]
  split <;> rfl

/-- A token reads onto the stacks at another place as it does here, if the argument of the root that
it may be is evaluated so. -/
theorem feed_shift {token : Token} (waiting : Stacks)
    (hargument : ∀ argument ∈ token.argument?,
      (argument.shift n).evaluate = shiftResult n id argument.evaluate) :
    feed evaluate (waiting.shift n) (token.shift n) =
      shiftResult n (Stacks.shift n) (feed evaluate waiting token) := by
  obtain ⟨kind, literal, offset⟩ := token
  cases kind with
  | number value => rfl
  | leftParen => rfl
  | rightParen =>
    have hclose := Stacks.closeGroup_shift (n := n) (.of offset literal) waiting.pending
      waiting.operands
    rw [← Span.of_add] at hclose
    exact hclose
  | operator op =>
    have hreduce := Stacks.reduce_shift (n := n) op.precedence waiting.pending waiting.operands
    simp only [feed, Token.shift, Stacks.shift, hreduce]
    exact shiftResult_bind fun reduced => rfl
  | root body =>
    have hbody := hargument (ofRoot ⟨.root body, literal, offset⟩ body) rfl
    have hplace : (ofRoot ⟨.root body, literal, offset⟩ body).shift n =
        ofRoot ⟨.root body, literal, offset + n⟩ body := by
      simp only [ofRoot, shift, Nat.add_right_comm]
    rw [hplace] at hbody
    simp only [feed, Token.shift, hbody]
    refine shiftResult_bind fun value => ?_
    have hroot := rootOf_shift (n := n) ⟨.root body, literal, offset⟩ value
    change rootOf _ value >>= _ = _
    rw [Token.shift] at hroot
    rw [hroot]
    exact shiftResult_bind fun root => rfl

/-- Tokens read onto the stacks at another place as they do here, if the arguments of roots are
evaluated so. -/
theorem feedAll_shift {tokens : List Token} (waiting : Stacks)
    (harguments : ∀ token ∈ tokens, ∀ argument ∈ token.argument?,
      (argument.shift n).evaluate = shiftResult n id argument.evaluate) :
    feedAll (tokens.map (Token.shift n)) (waiting.shift n) =
      shiftResult n (Stacks.shift n) (feedAll tokens waiting) := by
  induction tokens generalizing waiting with
  | nil => rfl
  | cons token tokens ih =>
    rw [List.map_cons, feedAll_cons, feedAll_cons,
      feed_shift waiting (harguments token List.mem_cons_self)]
    exact shiftResult_bind fun next =>
      ih next fun token hmem => harguments token (List.mem_cons_of_mem _ hmem)

/-- A frame that stands further behind has the same value, or the same fault as much further
behind. -/
theorem evaluate_shift (n : Nat) (frame : Frame) :
    (frame.shift n).evaluate = frame.evaluate.mapError (Fault.shift n) := by
  rw [← shiftResult_id]
  induction frame using frame_induction with
  | step frame ih =>
    have hscan : (frame.shift n).scan = frame.scan.shift n :=
      Scanner.scan_shift n frame.offset none frame.text
    have hspan : (frame.shift n).span = frame.span.shift n := Span.of_add n frame.offset frame.text
    have hfeed := @feedAll_shift n frame.scan.tokens .empty fun token hmem argument harg =>
      ih argument (List.mem_filterMap.mpr ⟨token, hmem, harg⟩)
    rw [evaluate_eq_evaluateFrom, evaluate_eq_evaluateFrom, hscan, hspan, Scan.evaluateFrom,
      Scan.evaluateFrom]
    change feedAll (frame.scan.tokens.map (Token.shift n)) (Stacks.shift n .empty) >>= _ = _
    rw [hfeed]
    refine shiftResult_bind fun waiting => ?_
    cases hfault : frame.scan.fault with
    | some fault => simp only [Scan.shift, hfault]; rfl
    | none =>
      simp only [Scan.shift, hfault]
      exact Stacks.conclude_shift frame.span waiting

end Frame

end Surd
