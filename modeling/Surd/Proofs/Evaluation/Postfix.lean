import Surd.Postfix
import Surd.Proofs.Evaluation.Remainder

/-!
# Values by way of the postfix form

Evaluation settles the order of operators and applies them in the same pass. Both can be done one
after the other: what a token does to the stacks is what the items do that it adds to the postfix
form (`consume_emit_cons`). So both ways come to the same value, and to the same fault where several
could be met (`evaluate_postfix`), also where operands are missing or groups do not match.
-/

namespace Surd.Postfix

variable {argument : Frame → Except Fault Float}

/-! ## The steps of the machine -/

/-- The machine takes the root of an argument as evaluation does. -/
theorem consume_root (token : Token) (body : Text) (items : List Item) (operands : List Float) :
    consume argument (.root token body :: items) operands =
      argument (Frame.ofRoot token body) >>= fun value => Frame.rootOf token value >>= fun value =>
        consume argument items (value :: operands) := by
  rw [consume]
  cases argument (Frame.ofRoot token body) with
  | error fault => rfl
  | ok value =>
    change _ = Frame.rootOf token value >>= _
    rw [Frame.rootOf]
    by_cases hnegative : value < 0
    · simp only [hnegative, if_true]
      rfl
    · simp only [hnegative, if_false]
      rfl

/-- The machine applies an operator as evaluation does. -/
theorem consume_apply (op : Operator) (offset : Nat) (items : List Item) (operands : List Float) :
    consume argument (.apply op offset :: items) operands =
      Stacks.apply op offset operands >>= consume argument items := by
  match operands with
  | [] | [_] => rfl
  | right :: left :: operands =>
    rw [consume, Stacks.apply, Expression.operate?_eq_value?]
    cases op.value? left right <;> rfl

/-- Items that stand one behind the other are run one after the other. -/
theorem consume_append (items more : List Item) (operands : List Float) :
    consume argument (items ++ more) operands =
      consume argument items operands >>= consume argument more := by
  induction items generalizing operands with
  | nil => rfl
  | cons item items ih =>
    cases item with
    | push value => exact ih (value :: operands)
    | root token body => simp only [List.cons_append, consume_root, ih, bind_assoc]
    | apply op offset =>
      have hitems : consume argument (items ++ more) = fun operands =>
        consume argument items operands >>= consume argument more := funext ih
      simp only [List.cons_append, consume_apply, hitems, bind_assoc]
    | fail fault => rfl

/-- The value of a frame is the one that the machine leaves. -/
theorem evaluateWith_eq_single (argument : Frame → Except Fault Float) (frame : Frame) :
    evaluateWith argument frame =
      consume argument (emit [] frame.scan.fault frame.scan.tokens) [] >>=
        Stacks.single frame.span := by
  rw [evaluateWith]
  rcases consume argument (emit [] frame.scan.fault frame.scan.tokens) [] with
    fault | _ | ⟨value, _ | ⟨other, operands⟩⟩ <;> rfl

/-! ## Operators that are taken off the stack -/

/-- To apply the operators of a tier and above is to run them, in the order in which they are taken
off. -/
theorem reduce_eq_consume (argument : Frame → Except Fault Float) (op : Operator)
    (pending : List (Pending × Nat)) (operands : List Float) :
    Stacks.reduce op.precedence pending operands =
      consume argument (popTier (Expression.tier op) pending).1 operands >>= fun operands =>
        .ok ⟨operands, (popTier (Expression.tier op) pending).2⟩ := by
  induction pending generalizing operands with
  | nil => rfl
  | cons entry pending ih =>
    obtain ⟨waiting, offset⟩ := entry
    cases waiting with
    | group => rfl
    | operator op' =>
      have htier := @Expression.tier_lt_tier_iff op' op
      rw [Stacks.reduce, popTier]
      by_cases hprecedence : op'.precedence < op.precedence
      · rw [if_pos hprecedence, if_neg (Nat.not_le.mpr (htier.mpr hprecedence))]
        rfl
      · rw [if_neg hprecedence, if_pos (Nat.not_lt.mp (mt htier.mp hprecedence))]
        simp only [consume_apply, ih, bind_assoc]

/-- To close a group is to run its operators, unless there is no group. Its operators are run in
that case too, before the fault is met. -/
theorem closeGroup_eq_consume (argument : Frame → Except Fault Float) (close : Span)
    (pending : List (Pending × Nat)) (operands : List Float) :
    Stacks.closeGroup close pending operands =
      consume argument (popGroup pending).1 operands >>= fun operands =>
        match (popGroup pending).2 with
        | some below => .ok ⟨operands, below⟩
        | none => .error ⟨.unmatchedClose, close⟩ := by
  induction pending generalizing operands with
  | nil => rfl
  | cons entry pending ih =>
    obtain ⟨waiting, offset⟩ := entry
    cases waiting with
    | group => rfl
    | operator op => simp only [Stacks.closeGroup, popGroup, consume_apply, ih, bind_assoc]

/-- To finish is to run all operators that wait, up to a group that is still open. -/
theorem finish_eq_consume (pending : List (Pending × Nat)) (operands : List Float) :
    Stacks.finish pending operands = consume argument (popAll pending) operands := by
  induction pending generalizing operands with
  | nil => rfl
  | cons entry pending ih =>
    obtain ⟨waiting, offset⟩ := entry
    cases waiting with
    | group => rfl
    | operator op =>
      have hrest : Stacks.finish pending = consume argument (popAll pending) := funext ih
      simp only [Stacks.finish, popAll, consume_apply, hrest]

/-! ## One pass and two -/

/-- To run the postfix form of some tokens is to read the first one onto the stacks, and to run the
postfix form of the others from there. -/
theorem consume_emit_cons (fault : Option Fault) (token : Token) (tokens : List Token)
    (waiting : Stacks) :
    consume argument (emit waiting.pending fault (token :: tokens)) waiting.operands =
      Frame.feed argument waiting token >>= fun next =>
        consume argument (emit next.pending fault tokens) next.operands := by
  rw [emit, Frame.feed]
  cases token.kind with
  | number value => rfl
  | leftParen => rfl
  | root body =>
    simp only [consume_root, bind_assoc]
    rfl
  | operator op =>
    simp only [consume_append, reduce_eq_consume argument, bind_assoc]
    rfl
  | rightParen =>
    rw [closeGroup_eq_consume argument]
    rcases popGroup waiting.pending with ⟨items, _ | below⟩
    · simp only [consume_append, bind_assoc]
      rfl
    · simp only [consume_append, bind_assoc]
      rfl

/-- To run the postfix form of tokens is to read them onto the stacks and to finish, or to meet the
fault behind them. -/
theorem consume_emit (fault : Option Fault) (tokens : List Token) (waiting : Stacks) :
    consume argument (emit waiting.pending fault tokens) waiting.operands =
      tokens.foldlM (Frame.feed argument) waiting >>= fun last =>
        match fault with
        | some fault => .error fault
        | none => Stacks.finish last.pending last.operands := by
  induction tokens generalizing waiting with
  | nil =>
    cases fault with
    | some fault => rfl
    | none => exact (finish_eq_consume _ _).symm
  | cons token tokens ih =>
    rw [consume_emit_cons, List.foldlM_cons, bind_assoc]
    simp only [ih]

/-- With the same values in roots, a frame has the same value in one pass and in two. -/
theorem evaluateWith_eq (argument : Frame → Except Fault Float) (frame : Frame) :
    evaluateWith argument frame = Frame.evaluateWith argument frame := by
  rw [evaluateWith_eq_single, Frame.evaluateWith,
    show ([] : List (Pending × Nat)) = Stacks.empty.pending from rfl,
    show ([] : List Float) = Stacks.empty.operands from rfl, consume_emit, bind_assoc]
  congr 1
  funext last
  cases frame.scan.fault with
  | some fault => rfl
  | none => rfl

/-- The value of a frame by way of its postfix form is computed from those of the roots in it. -/
theorem evaluate_eq (frame : Frame) : evaluate frame = evaluateWith evaluate frame := by
  rw [evaluate, evaluateWith_eq, evaluateWith_eq]
  exact Frame.evaluateWith_congr fun argument hshorter => if_pos hshorter

/-- Roots in roots are shorter, so that a frame has the same value in one pass and in two, down to
the frames without roots. -/
theorem evaluate_eq_frame (frame : Frame) : evaluate frame = frame.evaluate := by
  induction hlength : frame.text.length using Nat.strong_induction_on generalizing frame with
  | h length ih =>
    rw [evaluate_eq, evaluateWith_eq, Frame.evaluate_eq]
    exact Frame.evaluateWith_congr fun argument hshorter => ih _ (hlength ▸ hshorter) argument rfl

end Surd.Postfix

namespace Surd

/-- Every frame has the value that the machine computes from the postfix form of its tokens and from
the values of the frames in its roots, which are computed in the same way. Where there is no value,
the fault that the machine meets first is the one that evaluation meets first: for the same cause
and in the same place. So it is with a whole text, whatever stands in it. -/
theorem evaluate_postfix :
    (∀ frame : Frame, frame.evaluate = Postfix.evaluate frame ∧
      Postfix.evaluate frame = Postfix.evaluateWith Postfix.evaluate frame) ∧
    ∀ text : Text,
      evaluateNormal text = (Postfix.evaluate (.whole text)).mapError (Fault.within text) := by
  refine ⟨fun frame => ⟨(Postfix.evaluate_eq_frame frame).symm, Postfix.evaluate_eq frame⟩,
    fun text => ?_⟩
  rw [evaluateNormal, Postfix.evaluate_eq_frame]

/-- Of a division by zero and a parenthesis too many the machine meets the division first, for its
item stands in front of the fault. -/
theorem evaluate_postfix_first_fault :
    let frame := Frame.whole "2*√(9)+1/0)".toList
    Postfix.emit [] frame.scan.fault frame.scan.tokens =
        [.push 2, .root ⟨.root ['9'], "√(9)".toList, 2⟩ ['9'], .apply .mul 1, .push 1, .push 0,
          .apply .div 10, .apply .add 8, .fail ⟨.unmatchedClose, ⟨12, 13⟩⟩] ∧
      evaluateNormal frame.text = .error ⟨⟨.divisionByZero, ⟨10, 11⟩⟩, frame.text⟩ := by
  intro frame
  obtain ⟨-, hvalue⟩ := evaluate_postfix
  refine ⟨by decide +kernel, ?_⟩
  rw [hvalue]
  decide +kernel

end Surd
