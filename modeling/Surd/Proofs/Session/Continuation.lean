import Surd.Proofs.LeadingZeros
import Surd.Proofs.Resubmission

/-!
# Going on from a result

After a submission the buffer holds the result, and keys that begin with an operator go on from it.
The result then stands for its expression in parentheses (`Frame.evaluate_alike_of_result`), so that
nothing is lost by writing the value in place of the calculation. Only zero is different: a buffer
that holds it is at rest, and the operator is typed into an empty one
(`Session.submit_append_operator`).
-/

namespace Surd

open Front

/-- In front of an operator, the text of a number means what parentheses do around a text with that
value. -/
theorem Frame.evaluate_alike_of_result {inner literal : Text} {value : Float}
    (hvalue : (Frame.whole inner).evaluate = .ok value) (hliteral : NumberText true literal value)
    (op : Operator) (rest : Text) :
    Alike Eq (Frame.whole (literal ++ op.symbol :: rest)).evaluate
      (Frame.whole ('(' :: inner ++ [')'] ++ op.symbol :: rest)).evaluate := by
  have hcut : Cut literal (op.symbol :: rest) := by
    cases op <;> exact cut_cons (by decide) (by decide) (by decide)
  have hsign : signAllowed literal.getLast? = signAllowed (some ')') :=
    hliteral.signAllowed_getLast?
  have hnumber : (whole (literal ++ op.symbol :: rest)).evaluate =
      (Scanner.scan ⟨0 + Text.bytes literal, literal.getLast?, op.symbol :: rest⟩).evaluateFrom
        (whole (literal ++ op.symbol :: rest)).span (Stacks.empty.push value) := by
    have hscan : (whole (literal ++ op.symbol :: rest)).scan = _ :=
      @Scanner.scan_number 0 none literal _ value hliteral hcut
    rw [evaluate_eq_evaluateFrom, hscan, Scan.evaluateFrom_after]
    rfl
  have hgroup : ∃ behind, (whole ('(' :: inner ++ [')'] ++ op.symbol :: rest)).evaluate =
      (Scanner.scan ⟨behind, some ')', op.symbol :: rest⟩).evaluateFrom
        (whole ('(' :: inner ++ [')'] ++ op.symbol :: rest)).span (Stacks.empty.push value) := by
    rw [evaluate_eq_evaluateFrom]
    exact Scanner.evaluateFrom_group hvalue _ 0 none _ .empty
  obtain ⟨behind, hgroup⟩ := hgroup
  rw [hnumber, hgroup]
  exact Scan.evaluateFrom_alike (Scanner.scan_alike hsign _ _ _) (.refl (fun _ => rfl) _)

/-- A text in parentheses is brought into normal form inside and behind them. -/
theorem normalize_group (inner : Text) (op : Operator) (rest : Text) :
    normalize ('(' :: inner ++ ')' :: op.symbol :: rest) =
      '(' :: normalize inner ++ [')'] ++ op.symbol :: normalize rest := by
  have hopening : normalize ('(' :: (inner ++ ')' :: op.symbol :: rest)) =
      ['('] ++ normalize (inner ++ ')' :: op.symbol :: rest) := normalize_append_leftParen [] _
  have hbehind : normalize (op.symbol :: rest) = op.symbol :: normalize rest :=
    normalize_append_symbol op [] rest
  rw [List.cons_append, hopening, normalize_append_rightParen, hbehind]
  simp

/-- A buffer that holds the result of a number is at rest only if that is zero. -/
theorem InputBuffer.isResting_result {value : Float}
    (hfinite : Binary64.pattern value < Binary64.infinity) :
    InputBuffer.isResting ⟨Number.result value⟩ = (value == 0) := by
  have hnumber := Number.numberText_result_unsigned hfinite
  cases hzero : value == 0 with
  | true =>
    rw [Number.result_of_isZero (Binary64.beq_zero_iff.mp hzero)]
    rfl
  | false =>
    rw [hzero, if_neg Bool.false_ne_true] at hnumber
    have hdigit : Number.result value ≠ ['0'] := by
      intro hsame
      have hvalue := hnumber.evaluate
      have hother : (Frame.whole ['0']).evaluate = .ok 0 := (numberText_zeros 0 true).evaluate
      rw [hsame, hother] at hvalue
      cases hvalue
      cases hzero
    have hletter : Number.result value ≠ ['E', 'r', 'r', 'o', 'r'] := by
      intro hsame
      rw [hsame] at hnumber
      exact hnumber.ne_of_mem List.mem_cons_self (by decide) (by decide) (by decide) rfl
    simp [InputBuffer.isResting, hdigit, hletter]

namespace Session

/-- Keys that begin with an operator go on from a result as from its expression in parentheses. From
zero they start over. -/
theorem submit_append_operator {before after : Session} {value : Float}
    (hsubmit : before.submit = (.ok value, after))
    (hfinite : Binary64.pattern value < Binary64.infinity) (op : Operator) (rest : Text) :
    (after.perform (.append (op.symbol :: rest))).2.submit.1 =
      (evaluate (if value == 0 then op.symbol :: rest
        else '(' :: before.input.text ++ ')' :: op.symbol :: rest)).mapError
          fun diagnostic => Notice.ofCause diagnostic.cause := by
  have hinput := input_of_submit hsubmit
  have hvalue := fst_submit_eq_ok_iff.mp (congrArg Prod.fst hsubmit)
  rw [fst_submit]
  simp only [perform, InputBuffer.append, hinput, InputBuffer.isResting_result hfinite]
  cases hzero : value == 0 with
  | true => rfl
  | false =>
    have hnumber := Number.numberText_result_unsigned hfinite
    rw [hzero, if_neg Bool.false_ne_true] at hnumber
    have halike := Frame.evaluate_alike_of_result (evaluate_eq_ok_iff.mp hvalue) hnumber op
      (normalize rest)
    simp only [Bool.false_eq_true, if_false]
    rw [evaluate, evaluate, evaluateNormal, evaluateNormal, normalize_group,
      normalize_append_symbol, hnumber.normalize_eq]
    exact halike.mapError_within_eq _ _ Notice.ofCause

/-- A negative result is the base of a power as a whole, here in front of a parenthesis that nothing
opens. Zero is no operand of what is typed behind it. -/
theorem submit_append_operator_negative :
    Session.submit ⟨⟨"2-5".toList⟩, .empty⟩ =
        (.ok (-3), ⟨⟨"-3".toList⟩, ⟨["2-5 = -3".toList]⟩⟩) ∧
      (Session.submit ⟨⟨"-3^2)".toList⟩, ⟨["2-5 = -3".toList]⟩⟩).1 =
        (evaluate "(2-5)^2)".toList).mapError (fun diagnostic => .ofCause diagnostic.cause) ∧
      Session.submit ⟨⟨"5-5".toList⟩, .empty⟩ =
        (.ok 0, ⟨⟨"0".toList⟩, ⟨["5-5 = 0".toList]⟩⟩) ∧
      (Session.submit ⟨⟨"*2".toList⟩, ⟨["5-5 = 0".toList]⟩⟩).1 =
        (evaluate "*2".toList).mapError fun diagnostic => .ofCause diagnostic.cause := by
  have hnegative : Session.submit ⟨⟨"2-5".toList⟩, .empty⟩ =
      (.ok (-3), ⟨⟨"-3".toList⟩, ⟨["2-5 = -3".toList]⟩⟩) := by decide +kernel
  have hzero : Session.submit ⟨⟨"5-5".toList⟩, .empty⟩ =
      (.ok 0, ⟨⟨"0".toList⟩, ⟨["5-5 = 0".toList]⟩⟩) := by decide +kernel
  have hpower := submit_append_operator hnegative (by decide +kernel) .pow "2)".toList
  have hproduct := submit_append_operator hzero (by decide +kernel) .mul "2".toList
  rw [if_neg (by decide +kernel)] at hpower
  rw [if_pos (by decide +kernel)] at hproduct
  exact ⟨hnegative, hpower, hzero, hproduct⟩

end Session

end Surd
