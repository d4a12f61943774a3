import Surd.Proofs.Session.Run
import Surd.Proofs.Substitution

/-!
# Submitting a result again

A result that is finite is the text of a single number, so it evaluates to itself but for the sign
of a zero, and submitting it again changes nothing but the history. Infinities and what is not a
number are written with letters, which are no number. So such a result is not accepted again
(`evaluate_result`).
-/

namespace Surd

namespace Number

/-- A finite result is the text of its number, except that zero loses its sign. -/
theorem numberText_result_unsigned {x : Float} (hfinite : Binary64.pattern x < Binary64.infinity) :
    NumberText true (result x) (if x == 0 then 0 else x) := by
  split
  next hzero =>
    have hsame : result x = result 0 := by
      rw [result_of_isZero (Binary64.beq_zero_iff.mp hzero), @result_of_isZero 0 ⟨false, rfl⟩]
    rw [hsame]
    exact numberText_result (by decide) (by decide) fun _ => rfl
  next hzero =>
    refine numberText_result hfinite (fun hsame => hzero ?_) fun _ => rfl
    exact Binary64.beq_zero_iff.mpr ⟨true, hsame⟩

/-- The sign of a zero does not change a result. -/
theorem result_unsigned (x : Float) : result (if x == 0 then 0 else x) = result x := by
  split
  next hzero =>
    rw [result_of_isZero (Binary64.beq_zero_iff.mp hzero)]
    exact result_of_isZero ⟨false, rfl⟩
  next => rfl

/-- A result that is not finite is written with letters. -/
theorem result_of_not_finite {x : Float} (hinfinite : ¬ Binary64.pattern x < Binary64.infinity) :
    result x = "NaN".toList ∨ result x = "inf".toList ∨ result x = "-inf".toList := by
  have hzero : ¬ (x == 0) = true := by
    intro hzero
    obtain ⟨negative, rfl⟩ := Binary64.beq_zero_iff.mp hzero
    rw [Binary64.pattern_toFloat (Nat.zero_le _)] at hinfinite
    exact hinfinite (by decide)
  rw [result, if_neg hzero, text]
  by_cases hnumber : Binary64.infinity < Binary64.pattern x
  · exact .inl (if_pos hnumber)
  · have hpattern : Binary64.pattern x = Binary64.infinity := by omega
    rw [if_neg hnumber, magnitudeText, if_pos hpattern]
    split
    · exact .inr (.inr rfl)
    · exact .inr (.inl rfl)

/-- A result that is not finite is rejected at its first character. -/
theorem evaluate_result_of_not_finite {x : Float}
    (hinfinite : ¬ Binary64.pattern x < Binary64.infinity) :
    ∃ diagnostic, evaluate (result x) = .error diagnostic ∧
      diagnostic.cause.kind = .malformedExpression ∧ diagnostic.span.start = 0 := by
  rcases result_of_not_finite hinfinite with h | h | h
  · refine ⟨⟨⟨.unexpectedCharacter 'N', ⟨0, 1⟩⟩, "NaN".toList⟩, ?_, rfl, rfl⟩
    rw [h]
    decide +kernel
  · refine ⟨⟨⟨.unexpectedCharacter 'i', ⟨0, 1⟩⟩, "inf".toList⟩, ?_, rfl, rfl⟩
    rw [h]
    decide +kernel
  · refine ⟨⟨⟨.invalidNumber ['-'], ⟨0, 1⟩⟩, "-inf".toList⟩, ?_, rfl, rfl⟩
    rw [h]
    decide +kernel

end Number

/-- A finite result is read as one number, with the bits of the number that it was written for, or
as positive zero if that was a zero. Submitted again, it stays, and the history gets a line in
which both sides are equal. A result that is not finite is malformed at its front, and submitting it
again changes nothing. -/
theorem evaluate_result (x : Float) :
    (Binary64.pattern x < Binary64.infinity →
      ∃ same : Float, same.toBits = (if x == 0 then 0 else x.toBits) ∧
        evaluate (Number.result x) = .ok same ∧
        normalize (Number.result x) = Number.result x ∧
        Scan.of 0 (Number.result x) = ⟨[⟨.number same, Number.result x, 0⟩], none⟩ ∧
        ∀ before after : Session, before.submit = (.ok x, after) →
          after.submit = (.ok same,
            ⟨after.input, after.history.push (Number.result x) (Number.result x)⟩)) ∧
    (¬ Binary64.pattern x < Binary64.infinity →
      ∃ diagnostic, evaluate (Number.result x) = .error diagnostic ∧
        diagnostic.cause.kind = .malformedExpression ∧ diagnostic.span.start = 0 ∧
        ∀ before after : Session, before.submit = (.ok x, after) →
          after.submit = (.error (.ofCause diagnostic.cause), after)) := by
  constructor
  · intro hfinite
    have htext := Number.numberText_result_unsigned hfinite
    have hvalue : evaluate (Number.result x) = .ok (if x == 0 then 0 else x) := by
      rw [evaluate_eq_ok_iff, htext.normalize_eq]
      exact htext.evaluate
    refine ⟨_, ?_, hvalue, htext.normalize_eq, htext.scan_whole, fun before after hsubmit => ?_⟩
    · split
      · decide +kernel
      · rfl
    · have hinput := Session.input_of_submit hsubmit
      rw [Session.submit_of_ok (by rw [hinput]; exact hvalue), Number.result_unsigned, hinput]
  · intro hinfinite
    obtain ⟨diagnostic, hfault, hkind, hstart⟩ := Number.evaluate_result_of_not_finite hinfinite
    refine ⟨diagnostic, hfault, hkind, hstart, fun before after hsubmit => ?_⟩
    have hinput := Session.input_of_submit hsubmit
    exact Session.submit_of_error (by rw [hinput]; exact hfault)

/-- Negative zero as a result is positive zero when it is submitted again, and infinity is not
accepted again. -/
theorem evaluate_result_of_zero_and_infinity :
    (∃ zero : Float, zero.toBits = 0 ∧
      Session.submit ⟨⟨['0']⟩, ⟨["0*-1 = 0".toList]⟩⟩ =
        (.ok zero, ⟨⟨['0']⟩, ⟨["0*-1 = 0".toList, "0 = 0".toList]⟩⟩)) ∧
    ∃ (notice : Notice) (infinite : Session), infinite.input.text = "inf".toList ∧
      infinite.submit = (.error notice, infinite) := by
  have hzero := evaluate_result (Binary64.toFloat true 0)
  have hinfinity := evaluate_result (Binary64.toFloat false Binary64.infinity)
  constructor
  · obtain ⟨zero, hbits, -, -, -, hagain⟩ := hzero.1 (by decide +kernel)
    have hsubmit : Session.submit ⟨⟨"0*-1".toList⟩, .empty⟩ =
        (.ok (Binary64.toFloat true 0), ⟨⟨['0']⟩, ⟨["0*-1 = 0".toList]⟩⟩) := by decide +kernel
    have hresult : Number.result (Binary64.toFloat true 0) = ['0'] := by decide +kernel
    have hnext := hagain _ _ hsubmit
    rw [hresult] at hnext
    refine ⟨zero, ?_, hnext⟩
    rw [hbits]
    decide +kernel
  · obtain ⟨diagnostic, -, -, -, hagain⟩ := hinfinity.2 (by decide +kernel)
    have hvalue : evaluate (List.replicate 309 '9') =
        .ok (Binary64.toFloat false Binary64.infinity) := by decide +kernel
    have hsubmit : Session.submit ⟨⟨List.replicate 309 '9'⟩, .empty⟩ = _ :=
      Session.submit_of_ok hvalue
    have hresult : Number.result (Binary64.toFloat false Binary64.infinity) = "inf".toList := by
      decide +kernel
    exact ⟨_, _, hresult, hagain _ _ hsubmit⟩

end Surd
