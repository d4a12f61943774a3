import Surd.Proofs.Evaluation.Malformed
import Surd.Proofs.LastNumber
import Surd.Proofs.Number.Hundredth
import Surd.Proofs.Number.Result
import Surd.Proofs.Splice

/-!
# The percent key and the percent sign

The percent key divides the last number of a text by a hundred where it stands; a percent sign
behind the number leaves that to evaluation. Both agree on every text that has a value, as long as
no minus sign is lost (`evaluate_percent`): one can be lost where the key takes it for the sign of
the number, evaluation takes it for an operator, and a hundredth of the number is zero, which is
written without a sign.
-/

namespace Surd

open Front

namespace LastNumber

/-- The text with a percent sign behind the number. -/
def withPercent (found : LastNumber) : Text :=
  found.before ++ (found.number ++ '%' :: found.after)

/-- Whether the minus sign of the number is an operator in the text, and lost when a hundredth of
the value is written for the number. -/
def LosesMinus (found : LastNumber) (value : Float) : Prop :=
  found.number.head? = some '-' ∧ signAllowed found.before.getLast? = false ∧
    (value / 100 == 0) = true

end LastNumber

variable {before after digits : Text}

/-! ## The number and a hundredth of it -/

/-- A number that is given by digits, and a hundredth of it, in units of the encoding. -/
structure Hundredth (digits : Text) (pattern hundredth : Nat) : Prop where
  ne_nil : digits ≠ []
  numeric : ∀ c ∈ digits, isNumeric c = true
  read : ∀ negative, Number.read? ((if negative then ['-'] else []) ++ digits) =
    some (Binary64.toFloat negative pattern)
  finite : hundredth < Binary64.infinity
  div : ∀ negative, Binary64.toFloat negative pattern / 100 = Binary64.toFloat negative hundredth

namespace Hundredth

variable {pattern hundredth : Nat}

/-- Digits with a percent sign behind them are the text of a hundredth. -/
theorem percent_unsigned (h : Hundredth digits pattern hundredth) (allowed : Bool) :
    NumberText allowed (digits ++ ['%']) (Binary64.toFloat false hundredth) := by
  have htext := @NumberText.intro allowed [] digits _ true (.inl rfl) h.ne_nil h.numeric
    (h.read false)
  rwa [if_pos rfl, if_pos rfl, h.div] at htext

/-- So they are with a minus sign in front, where it is a sign. -/
theorem percent_minus (h : Hundredth digits pattern hundredth) :
    NumberText true ('-' :: (digits ++ ['%'])) (Binary64.toFloat true hundredth) := by
  have htext := @NumberText.intro true ['-'] digits _ true (.inr ⟨rfl, rfl⟩) h.ne_nil h.numeric
    (h.read true)
  rwa [if_pos rfl, if_pos rfl, h.div] at htext

/-- Digits alone are the text of the number. -/
theorem unsigned (h : Hundredth digits pattern hundredth) (allowed : Bool) :
    NumberText allowed digits (Binary64.toFloat false pattern) := by
  have htext := @NumberText.intro allowed [] digits _ false (.inl rfl) h.ne_nil h.numeric
    (h.read false)
  rwa [if_neg Bool.false_ne_true, if_neg Bool.false_ne_true, List.append_nil] at htext

/-- A hundredth without a sign is read back from its result. -/
theorem result_unsigned (h : Hundredth digits pattern hundredth) (allowed : Bool) :
    NumberText allowed (Number.result (Binary64.toFloat false hundredth))
      (Binary64.toFloat false hundredth) := by
  have hpattern := @Binary64.pattern_toFloat false hundredth h.finite.le
  have hnegative := @Binary64.isNegative_toFloat false hundredth h.finite.le
  refine Number.numberText_result (hpattern.trans_lt h.finite) (fun hzero => ?_) fun hsign => ?_
  · rw [hzero] at hnegative
    cases hnegative
  · rw [hnegative] at hsign
    cases hsign

/-- Below zero, too, a hundredth is read back from its result. -/
theorem result_minus (h : Hundredth digits pattern hundredth) (hzero : hundredth ≠ 0) :
    NumberText true (Number.result (Binary64.toFloat true hundredth))
      (Binary64.toFloat true hundredth) := by
  have hpattern := @Binary64.pattern_toFloat true hundredth h.finite.le
  refine Number.numberText_result (hpattern.trans_lt h.finite) (fun hsame => hzero ?_) fun _ => rfl
  rw [hsame] at hpattern
  exact hpattern.symm

end Hundredth

namespace LastNumber.Parts

variable {found : LastNumber} {sign : Text} {value : Float}

/-- The value of a last number is given by its digits, up to the sign. -/
theorem exists_hundredth (hparts : found.Parts sign digits)
    (hread : Number.read? found.number = some value)
    (hfinite : Binary64.pattern value < Binary64.infinity) :
    ∃ pattern hundredth, Hundredth digits pattern hundredth ∧
      value = Binary64.toFloat (decide (sign = ['-'])) pattern := by
  obtain ⟨-, hne, hnumeric⟩ := of_decimal?_eq_some hparts.digits
  have hplain (negative : Bool) : Number.read? ((if negative then ['-'] else []) ++ digits) =
      (Decimal.ofText? digits).map fun decimal => Binary64.toFloat negative decimal.nearest := by
    cases negative with
    | true => rfl
    | false =>
      obtain ⟨c, rest, rfl⟩ := List.exists_cons_of_ne_nil hne
      exact Number.read?_of_isNumeric (hnumeric c List.mem_cons_self)
  have hvalue : (Decimal.ofText? digits).map (fun decimal =>
      Binary64.toFloat (decide (sign = ['-'])) decimal.nearest) = some value := by
    rw [hparts.number] at hread
    rcases hparts.sign with rfl | rfl | rfl
    · rw [← hread]
      exact (hplain false).symm
    · exact hread
    · exact hread
  obtain ⟨decimal, hdecimal, rfl⟩ := Option.map_eq_some_iff.mp hvalue
  have hle : decimal.nearest ≤ Binary64.infinity := Nat.min_le_left _ _
  rw [Binary64.pattern_toFloat hle] at hfinite
  obtain ⟨hundredth, hsmall, hdiv⟩ := Binary64.exists_div_hundred hfinite
  refine ⟨decimal.nearest, hundredth, ⟨hne, hnumeric, fun negative => ?_, hsmall, hdiv⟩, rfl⟩
  rw [hplain, hdecimal, Option.map_some]

end LastNumber.Parts

/-! ## Agreement at each kind of sign -/

section Agreement

variable {pattern hundredth : Nat}

/-- The number has no sign. -/
theorem Hundredth.agree_unsigned (h : Hundredth digits pattern hundredth)
    (haround : Around before after)
    (hbefore : ∀ c ∈ before.getLast?, isNumeric c = false ∧ c ≠ '-') :
    Agree (evaluate (before ++ (Number.result (Binary64.toFloat false hundredth) ++ after)))
      (evaluate (before ++ (digits ++ ['%'] ++ after))) := by
  have hresult := h.result_unsigned (signAllowed before.getLast?)
  have hpercent := h.percent_unsigned (signAllowed before.getLast?)
  exact haround.agree_number hresult hpercent (.inl rfl)
    ⟨hresult.cut_left hbefore, hpercent.cut_left hbefore⟩

/-- The sign of the number is an operator, and kept when a hundredth is written for the number. -/
theorem Hundredth.agree_operator (h : Hundredth digits pattern hundredth)
    (haround : Around before after) {op : Operator} (hop : op.symbol ∈ ['+', '-', '%'])
    (hbinary : op = .sub → signAllowed before.getLast? = false) :
    Agree
      (evaluate
        (before ++ (op.symbol :: Number.result (Binary64.toFloat false hundredth) ++ after)))
      (evaluate (before ++ (op.symbol :: (digits ++ ['%']) ++ after))) :=
  haround.agree_operator hop hbinary (h.result_unsigned true) (h.percent_unsigned true) (.inl rfl)

/-- The sign of the number is its own, and kept when a hundredth is written for the number. -/
theorem Hundredth.agree_sign (h : Hundredth digits pattern hundredth)
    (haround : Around before after) (hzero : hundredth ≠ 0)
    (hsign : signAllowed before.getLast? = true) :
    Agree (evaluate (before ++ (Number.result (Binary64.toFloat true hundredth) ++ after)))
      (evaluate (before ++ ('-' :: (digits ++ ['%']) ++ after))) := by
  have hresult := (h.result_minus hzero).of_allowed hsign
  have hpercent := h.percent_minus.of_allowed hsign
  have hcut (literal : Text) : Cut before ('-' :: literal) :=
    cut_cons (by decide) (by decide) (by decide)
  rw [Number.result_toFloat_true (Nat.pos_of_ne_zero hzero) h.finite] at hresult ⊢
  exact haround.agree_number hresult hpercent (.inl rfl) ⟨hcut _, hcut _⟩

/-- Zero is written for a number with its own sign. -/
theorem Hundredth.agree_zero (h : Hundredth digits pattern 0) (haround : Around before after)
    (hsign : signAllowed before.getLast? = true) (hminus : before.getLast? ≠ some '-') :
    Agree (evaluate (before ++ (['0'] ++ after)))
      (evaluate (before ++ ('-' :: (digits ++ ['%']) ++ after))) := by
  have hbefore : ∀ c ∈ before.getLast?, isNumeric c = false ∧ c ≠ '-' := by
    intro c hc
    rw [hc] at hsign hminus
    refine ⟨?_, fun hc => hminus (congrArg some hc)⟩
    by_contra hnumeric
    rw [signAllowed_of_isNumeric (Bool.eq_true_of_not_eq_false hnumeric)] at hsign
    cases hsign
  have hresult := h.result_unsigned (signAllowed before.getLast?)
  have hpercent := h.percent_minus.of_allowed hsign
  rw [Number.result_of_isZero ⟨false, rfl⟩] at hresult
  exact haround.agree_number hresult hpercent (.inr ⟨⟨false, rfl⟩, true, rfl⟩)
    ⟨hresult.cut_left hbefore, hpercent.cut_left hbefore⟩

/-- Zero is written for a number with its own sign, in front of which a minus sign is an operator.
-/
theorem Hundredth.agree_zero_minus (h : Hundredth digits pattern 0) (haround : Around before after)
    (hbinary : signAllowed before.getLast? = false) :
    Agree (evaluate (before ++ ('-' :: ['0'] ++ after)))
      (evaluate (before ++ ('-' :: '-' :: (digits ++ ['%']) ++ after))) := by
  have hresult := h.result_unsigned true
  rw [Number.result_of_isZero ⟨false, rfl⟩] at hresult
  exact @Around.agree_operator _ _ _ _ _ _ haround .sub (by decide) (fun _ => hbinary) hresult
    h.percent_minus (.inr ⟨⟨false, rfl⟩, true, rfl⟩)

/-- Zero is written for a number and the operator in front of it. What was before the operator is no
operand of another one then, unless it runs together with the zero. -/
theorem Hundredth.evaluate_ne_ok_of_zero (h : Hundredth digits pattern 0)
    (haround : Around before after) {value : Float}
    (hvalue : evaluate (before ++ ('-' :: digits ++ after)) = .ok value)
    (hbinary : signAllowed before.getLast? = false)
    (hbefore : ∀ c ∈ before.getLast?, isNumeric c = false) (other : Float) :
    evaluate (before ++ (['0'] ++ after)) ≠ .ok other := by
  have hresult := h.result_unsigned false
  rw [Number.result_of_isZero ⟨false, rfl⟩] at hresult
  have hminus : ∀ c ∈ before.getLast?, isNumeric c = false ∧ c ≠ '-' := by
    intro c hc
    refine ⟨hbefore c hc, ?_⟩
    rintro rfl
    rw [hc] at hbinary
    exact absurd hbinary (by decide)
  exact @Around.evaluate_ne_ok _ _ _ _ _ _ haround .sub (by decide) hbinary (h.unsigned true)
    hresult (hresult.cut_left hminus) value hvalue other

/-- In a text with a value, the first of two minus signs before a number is an operator. -/
theorem signAllowed_of_minus_minus (haround : Around before after) {value : Float}
    (hdigits : ∀ c ∈ digits, isNumeric c = true)
    (hvalue : evaluate (before ++ ('-' :: '-' :: digits ++ after)) = .ok value) :
    signAllowed before.getLast? = false := by
  have hsign : '-' ∈ ['+', '-', '%'] := by decide
  have hfigures : IsFigures digits := fun c hc => .inl (hdigits c hc)
  rw [evaluate_eq_ok_iff, haround.normalize_eq (List.cons_ne_nil _ _)
    ((hfigures.cons hsign).cons hsign)] at hvalue
  by_contra hallowed
  rw [← getLast?_markRoots] at hallowed
  exact Frame.evaluate_ne_ok_of_minus_minus (Bool.eq_true_of_not_eq_false hallowed) hdigits
    haround.trails.markRoots hvalue

/-- The number has a minus sign, which is not lost when a hundredth is written for the number. -/
theorem Hundredth.agree_minus (h : Hundredth digits pattern hundredth)
    (haround : Around before after) {value : Float}
    (hvalue : evaluate (before ++ ('-' :: digits ++ after)) = .ok value)
    (hkept : ¬ (signAllowed before.getLast? = false ∧ hundredth = 0)) :
    Agree (evaluate (before ++ (Number.result (Binary64.toFloat true hundredth) ++ after)))
      (evaluate (before ++ ('-' :: (digits ++ ['%']) ++ after))) := by
  by_cases hzero : hundredth = 0
  · subst hzero
    have hsign : signAllowed before.getLast? = true :=
      Bool.eq_true_of_not_eq_false fun hbinary => hkept ⟨hbinary, rfl⟩
    rw [Number.result_of_isZero ⟨true, rfl⟩]
    by_cases hminus : before.getLast? = some '-'
    · obtain ⟨front, rfl⟩ := List.getLast?_eq_some_iff.mp hminus
      have htext (rest : Text) : front ++ ['-'] ++ rest = front ++ ('-' :: rest) := by simp
      have hfront : Around front after :=
        ⟨fun c hc => haround.blank_before c (List.mem_append_left _ hc), haround.blank_after,
          haround.trails⟩
      rw [htext] at hvalue
      rw [htext, htext]
      exact h.agree_zero_minus hfront (signAllowed_of_minus_minus hfront h.numeric hvalue)
    · exact h.agree_zero haround hsign hminus
  · cases hsign : signAllowed before.getLast? with
    | true => exact h.agree_sign haround hzero hsign
    | false =>
      rw [Number.result_toFloat_true (Nat.pos_of_ne_zero hzero) h.finite]
      exact @Hundredth.agree_operator _ _ _ _ _ h haround .sub (by decide) fun _ => hsign

/-- In a text with a value, the digits of the last number are all that is read with them. -/
theorem not_joins_of_evaluate {found : LastNumber} {text : Text} {value : Float}
    (hvalue : evaluate text = .ok value) (hfound : LastNumber.find? text = some found)
    (hparts : found.Parts [] digits) (haround : Around found.before found.after) :
    ∀ c ∈ found.before.getLast?, isNumeric c = false ∧ c ≠ '-' := by
  intro c hc
  by_contra hjoins
  obtain ⟨rfl, hpoint⟩ := LastNumber.eq_point_of_joins hfound hparts hc (by
    by_cases hminus : c = '-'
    · exact .inr hminus
    · exact .inl (Bool.eq_true_of_not_eq_false fun hnumeric => hjoins ⟨hnumeric, hminus⟩))
  obtain ⟨-, hne, hdigits⟩ := LastNumber.of_decimal?_eq_some hparts.digits
  obtain ⟨htext, -, -⟩ := LastNumber.find?_eq_some hfound
  rw [htext, hparts.number, List.nil_append, evaluate_eq_ok_iff,
    haround.normalize_eq hne fun c hc => .inl (hdigits c hc)] at hvalue
  rw [← getLast?_markRoots] at hc
  exact Frame.evaluate_ne_ok_of_points hc hpoint hdigits haround.trails.markRoots hvalue

end Agreement

/-! ## The main statement -/

namespace LastNumber

variable {found : LastNumber} {text sign : Text} {value number : Float} {pattern hundredth : Nat}

/-- Before and behind the last number of an accepted text there is nothing blank, and behind it
there are no digits and points. -/
theorem around (haccepts : accepts text = true) (hfound : find? text = some found)
    (hpercent : found.after.head? ≠ some '%') : Around found.before found.after := by
  obtain ⟨htext, ⟨sign, digits, hparts⟩, -⟩ := find?_eq_some hfound
  have hblank : ∀ c ∈ text, isBlank c = false := fun c hc =>
    isBlank_of_isKey (List.all_eq_true.mp haccepts c hc)
  rw [htext] at hblank
  refine ⟨fun c hc => hblank c ?_, fun c hc => hblank c ?_, hparts.plain, hpercent⟩
  · exact List.mem_append_left _ hc
  · exact List.mem_append_right _ (List.mem_append_right _ hc)

/-- The percent key writes a hundredth of the last number, also where it is at rest. -/
theorem percent_eq_scaled (hfound : find? text = some found)
    (hread : Number.read? found.number = some number) : percent text = found.scaled number := by
  rw [percent]
  split
  next hrest =>
    rcases hrest with rfl | rfl
    · cases hfound
    · have hzero : find? ['0'] = some ⟨[], ['0'], []⟩ := by decide
      rw [hzero] at hfound
      cases hfound
      have hvalue : Number.read? ['0'] = some (Binary64.toFloat false 0) := by decide +kernel
      rw [hvalue] at hread
      cases hread
      decide +kernel
  next => simp only [hfound, hread]

/-- A last number begins with a sign only if that is its sign. -/
theorem Parts.head?_number (hparts : found.Parts sign digits) {c : Char}
    (hc : isNumeric c = false) : found.number.head? = some c ↔ sign = [c] := by
  obtain ⟨-, hne, hnumeric⟩ := of_decimal?_eq_some hparts.digits
  obtain ⟨d, rest, rfl⟩ := List.exists_cons_of_ne_nil hne
  have hd : d ≠ c := ne_of_isNumeric (hnumeric d List.mem_cons_self) hc
  rw [hparts.number]
  rcases hparts.sign with rfl | rfl | rfl
  · simp [hd]
  · simp
  · simp

/-- The text that the percent key writes. -/
theorem scaled_eq (hparts : found.Parts sign digits) (h : Hundredth digits pattern hundredth) :
    found.scaled (Binary64.toFloat (decide (sign = ['-'])) pattern) =
      found.before ++ ((if sign = ['+'] then ['+'] else []) ++
        Number.result (Binary64.toFloat (decide (sign = ['-'])) hundredth) ++ found.after) := by
  simp only [scaled, h.div, hparts.head?_number (show isNumeric '+' = false by decide),
    List.append_assoc]

/-- The text with a percent sign. -/
theorem withPercent_eq (hparts : found.Parts sign digits) :
    found.withPercent = found.before ++ (sign ++ (digits ++ ['%']) ++ found.after) := by
  simp only [withPercent, hparts.number, List.append_assoc, List.singleton_append]

/-- A minus sign is lost if it is an operator and a hundredth is zero. -/
theorem losesMinus_iff (hparts : found.Parts sign digits) (h : Hundredth digits pattern hundredth) :
    found.LosesMinus (Binary64.toFloat (decide (sign = ['-'])) pattern) ↔
      sign = ['-'] ∧ signAllowed found.before.getLast? = false ∧ hundredth = 0 := by
  rw [LosesMinus, hparts.head?_number (by decide), h.div, Binary64.beq_zero_iff,
    Binary64.isZero_toFloat_iff h.finite.le]

end LastNumber

section

variable {found : LastNumber} {text : Text} {value number : Float}

/-- The percent key and a percent sign behind the last number give values that agree if no minus sign
is lost. If one is, the key leaves a zero for the number and the operator before it; the values may
still agree then, as they do for `0-0`. -/
theorem evaluate_percent (haccepts : accepts text = true) (hvalue : evaluate text = .ok value)
    (hfound : LastNumber.find? text = some found)
    (hread : Number.read? found.number = some number)
    (hfinite : Binary64.pattern number < Binary64.infinity)
    (hpercent : found.after.head? ≠ some '%') :
    (¬ found.LosesMinus number →
      Agree (evaluate (percent text)) (evaluate found.withPercent)) ∧
    (found.LosesMinus number →
      percent text = found.before ++ '0' :: found.after ∧
      ((∀ c ∈ found.before.getLast?, isNumeric c = false) →
        ∃ diagnostic, evaluate (percent text) = .error diagnostic)) := by
  have haround := LastNumber.around haccepts hfound hpercent
  obtain ⟨htext, ⟨sign, digits, hparts⟩, -⟩ := LastNumber.find?_eq_some hfound
  rw [LastNumber.percent_eq_scaled hfound hread]
  obtain ⟨pattern, hundredth, h, rfl⟩ := hparts.exists_hundredth hread hfinite
  rw [LastNumber.losesMinus_iff hparts h, LastNumber.scaled_eq hparts h,
    LastNumber.withPercent_eq hparts]
  have hplace := hvalue
  rw [htext, hparts.number] at hplace
  constructor
  · intro hkept
    rcases hparts.sign with rfl | rfl | rfl
    · exact h.agree_unsigned haround (not_joins_of_evaluate hvalue hfound hparts haround)
    · exact @Hundredth.agree_operator _ _ _ _ _ h haround .add (by decide) fun hop => by cases hop
    · exact h.agree_minus haround hplace fun hlost => hkept ⟨rfl, hlost⟩
  · rintro ⟨rfl, hbinary, rfl⟩
    have hresult : Number.result (Binary64.toFloat (decide (['-'] = ['-'])) 0) = ['0'] :=
      Number.result_of_isZero ⟨true, rfl⟩
    rw [hresult]
    refine ⟨rfl, fun hbefore => ?_⟩
    cases hresult : evaluate (found.before ++ ((if ['-'] = ['+'] then ['+'] else []) ++ ['0'] ++
        found.after)) with
    | ok other =>
      exact absurd hresult (h.evaluate_ne_ok_of_zero haround hplace hbinary hbefore other)
    | error diagnostic => exact ⟨diagnostic, rfl⟩

/-- A difference in parentheses, of which a hundredth of the second number is taken. -/
theorem evaluate_percent_difference :
    accepts "3*(12-34)".toList = true ∧
      Agree (evaluate (percent "3*(12-34)".toList)) (evaluate "3*(12-34%)".toList) := by
  have haccepts : accepts "3*(12-34)".toList = true := by decide
  have hvalue : evaluate "3*(12-34)".toList = .ok (-66) := by decide +kernel
  have hfound : LastNumber.find? "3*(12-34)".toList =
      some ⟨"3*(12".toList, "-34".toList, [')']⟩ := by decide
  have hread : Number.read? "-34".toList = some (-34) := by decide +kernel
  have hfinite : Binary64.pattern (-34) < Binary64.infinity := by decide +kernel
  have hpercent : [')'].head? ≠ some '%' := by decide
  have hkept : ¬ LastNumber.LosesMinus ⟨"3*(12".toList, "-34".toList, [')']⟩ (-34) := by
    rintro ⟨-, -, hzero⟩
    revert hzero
    decide +kernel
  exact ⟨haccepts, (evaluate_percent haccepts hvalue hfound hread hfinite hpercent).1 hkept⟩

/-- A zero that is subtracted is written as a digit of the number before it. -/
theorem not_agree_of_lost_minus :
    LastNumber.find? "5-0".toList = some ⟨['5'], ['-', '0'], []⟩ ∧
      evaluate "5-0".toList = .ok 5 ∧
      ¬ Agree (evaluate (percent "5-0".toList)) (evaluate "5-0%".toList) := by
  have hkey : evaluate (percent "5-0".toList) = .ok 50 := by decide +kernel
  have hsign : evaluate "5-0%".toList = .ok 5 := by decide +kernel
  refine ⟨by decide, by decide +kernel, ?_⟩
  rw [hkey, hsign]
  rintro (hequal | ⟨hnan, -⟩)
  · revert hequal
    decide +kernel
  · revert hnan
    decide +kernel

end

end Surd
