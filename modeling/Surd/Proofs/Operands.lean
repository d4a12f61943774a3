import Surd.Proofs.Evaluation.Flaw
import Surd.Proofs.Evaluation.Visits

/-!
# Operands and operators

Every operator takes two operands and leaves one, so a frame with a value has one operand more than
operators. A frame that fails because values are left over has as many more as are reported. A root
counts as an operand where it stands, and its argument is a frame with one operand more than
operators again. So the roots cancel out over all frames, and a text with a value has one number
more than operators (`evaluate_account`).
-/

namespace Surd

/-- Whether a token is a number. -/
def Token.isNumber (token : Token) : Bool :=
  match token.kind with
  | .number _ => true
  | _ => false

/-- The number of numbers among tokens. -/
def numberCount (tokens : List Token) : Nat := tokens.countP Token.isNumber

/-- Operands are numbers and roots. -/
theorem operandCount_eq (tokens : List Token) :
    operandCount tokens = numberCount tokens + (tokens.filterMap Token.argument?).length := by
  induction tokens with
  | nil => rfl
  | cons token tokens ih =>
    rw [operandCount, numberCount] at ih ⊢
    cases hkind : token.kind <;>
      simp [Token.isOperand, Token.isNumber, Token.argument?, hkind] <;> omega

/-- Tokens without operands and without operators are parentheses. -/
theorem paren_of_mem {tokens : List Token} (hoperands : operandCount tokens = 0)
    (hoperators : operatorCount tokens = 0) {token : Token} (hmem : token ∈ tokens) :
    token.kind = .leftParen ∨ token.kind = .rightParen := by
  have hoperand := List.countP_eq_zero.mp hoperands token hmem
  have hoperator := List.countP_eq_zero.mp hoperators token hmem
  cases hkind : token.kind <;> simp_all [Token.isOperand, Token.isOperator]

/-- What can be wrong with a frame as a whole: there is no value in it, or more than one. -/
def Cause.IsWhole : Cause → Prop
  | missingOperator _ | emptyExpression => True
  | _ => False

namespace Frame

variable {frame : Frame} {span : Span}

/-- A frame that raises that values are left over has that many operands more than operators. -/
theorem Raises.missingOperator {count : Nat} (h : frame.Raises ⟨.missingOperator count, span⟩) :
    operandCount frame.scan.tokens = operatorCount frame.scan.tokens + count ∧ 2 ≤ count := by
  generalize hfault : Fault.mk (.missingOperator count) span = fault at h
  cases h.flaw with
  | scan hscan =>
    obtain ⟨left, piece, right, -, -, -, hrejects, -⟩ := Scanner.exists_rejects hscan
    rw [← hfault] at hrejects
    cases hrejects
  | missingOperator _ hcount hseveral =>
    cases hfault
    exact ⟨hcount, hseveral⟩
  | missingOperand | divisionByZero | unmatchedClose | unclosedParen | negativeRoot
  | emptyExpression => cases hfault

/-- A frame that raises that there is nothing to evaluate has parentheses at most. -/
theorem Raises.emptyExpression (h : frame.Raises ⟨.emptyExpression, span⟩) :
    ∀ token ∈ frame.scan.tokens, token.kind = .leftParen ∨ token.kind = .rightParen := by
  generalize hfault : Fault.mk .emptyExpression span = fault at h
  cases h.flaw with
  | scan hscan =>
    obtain ⟨left, piece, right, -, -, -, hrejects, -⟩ := Scanner.exists_rejects hscan
    rw [← hfault] at hrejects
    cases hrejects
  | emptyExpression _ hoperands hoperators => exact fun token => paren_of_mem hoperands hoperators
  | missingOperand | divisionByZero | unmatchedClose | unclosedParen | negativeRoot
  | missingOperator => cases hfault

/-- A fault of a whole frame that the frame raises is marked from its start to its end. -/
theorem Raises.span_eq {fault : Fault} (h : frame.Raises fault) (hwhole : fault.cause.IsWhole) :
    fault.span = frame.span := by
  cases h.flaw with
  | scan hscan =>
    obtain ⟨left, piece, right, -, -, -, hrejects, -⟩ := Scanner.exists_rejects hscan
    cases hcause : fault.cause with
    | missingOperator | emptyExpression =>
      rw [hcause] at hrejects
      cases hrejects
    | _ =>
      rw [hcause] at hwhole
      cases hwhole
  | missingOperator | emptyExpression => rfl
  | missingOperand | divisionByZero | unmatchedClose | unclosedParen | negativeRoot =>
    cases hwhole

/-- The frame of a root begins behind the start of the frame that the root stands in. -/
theorem offset_lt_of_mem_arguments {argument : Frame} (hmem : argument ∈ frame.arguments) :
    frame.offset < argument.offset := by
  obtain ⟨token, htoken, body, -, rfl⟩ := mem_arguments_iff.mp hmem
  obtain ⟨left, right, -, hplace⟩ := Scanner.exists_place htoken
  have hopening : 0 < Text.bytes Token.rootOpening := by decide
  change frame.offset < token.offset + Text.bytes Token.rootOpening
  omega

/-- All frames in a frame begin where it begins or behind that. -/
theorem offset_le_of_mem_frames {inner : Frame} (hmem : inner ∈ frame.frames) :
    frame.offset ≤ inner.offset :=
  of_mem_frames (motive := fun inner => frame.offset ≤ inner.offset)
    (fun _ hle _ hargument => hle.trans (offset_lt_of_mem_arguments hargument).le) le_rfl hmem

/-- A fault of a whole frame that evaluating it comes to is raised by the frame itself if it is
marked from its start to its end, for the frames in it begin behind its start. -/
theorem raises_of_evaluate {cause : Cause} (hfault : frame.evaluate = .error ⟨cause, frame.span⟩)
    (hwhole : cause.IsWhole) : frame.Raises ⟨cause, frame.span⟩ := by
  refine (evaluate_eq_error_iff.mp hfault).resolve_right fun hinherits => ?_
  obtain ⟨argument, hargument, hfault⟩ := hinherits.exists_argument
  obtain ⟨inner, hmem, hraises⟩ := exists_raises hfault
  have hspan : frame.offset = inner.offset := congrArg Span.start (hraises.span_eq hwhole)
  have hbehind := (offset_lt_of_mem_arguments hargument).trans_le (offset_le_of_mem_frames hmem)
  exact absurd hspan hbehind.ne

/-! ## All frames together -/

/-- The tokens of a frame and of all frames in it. -/
def allTokens (frame : Frame) : List Token := frame.frames.flatMap fun inner => inner.scan.tokens

/-- All tokens of a frame are its own and those of its arguments. -/
theorem allTokens_eq (frame : Frame) :
    frame.allTokens = frame.scan.tokens ++ frame.arguments.flatMap allTokens := by
  rw [allTokens, frames_eq, List.flatMap_cons, List.flatMap_assoc]
  rfl

/-- If each of some frames has one number more than operators, all of them have as many more as
there are frames. -/
theorem numberCount_flatMap {arguments : List Frame}
    (hcount : ∀ argument ∈ arguments,
      numberCount argument.allTokens = operatorCount argument.allTokens + 1) :
    numberCount (arguments.flatMap allTokens) =
      operatorCount (arguments.flatMap allTokens) + arguments.length := by
  induction arguments with
  | nil => rfl
  | cons argument arguments ih =>
    have hfirst := hcount argument List.mem_cons_self
    have hrest := ih fun other hmem => hcount other (List.mem_cons_of_mem _ hmem)
    rw [numberCount, operatorCount] at hfirst hrest ⊢
    rw [List.flatMap_cons, List.countP_append, List.countP_append, List.length_cons]
    omega

/-- In a frame with a value and the frames in it there is one number more than operators. -/
theorem numberCount_allTokens (hvalue : ∃ value, frame.evaluate = .ok value) :
    numberCount frame.allTokens = operatorCount frame.allTokens + 1 := by
  induction frame using frame_induction with
  | step frame ih =>
    have hinside := numberCount_flatMap fun argument hmem =>
      ih argument hmem (exists_evaluate_of_mem_arguments hvalue hmem)
    have hown : operandCount frame.scan.tokens = operatorCount frame.scan.tokens + 1 :=
      (account_of_evaluate hvalue.choose_spec).2.1
    rw [operandCount_eq] at hown
    change numberCount frame.scan.tokens + frame.arguments.length = _ at hown
    rw [allTokens_eq]
    rw [numberCount, operatorCount] at hown hinside ⊢
    rw [List.countP_append, List.countP_append]
    omega

end Frame

/-- The account of operands and operators in every frame of a text: there is one operand more in a
frame with a value, as many more as are reported in one that raises that values are left over, and
there is nothing but parentheses in one that raises that there is nothing to evaluate. That the
frame raises such a fault itself can be seen from the span of the fault, which is its own. A text
with a value is evaluated by evaluating the frame of every root sign in it once, and over all these
frames there is one number more than operators. -/
theorem evaluate_account (text : Text) :
    (∀ frame ∈ (Frame.whole (normalize text)).frames,
      (∀ value, frame.evaluate = .ok value → frame.scan.fault = none ∧
        operandCount frame.scan.tokens = operatorCount frame.scan.tokens + 1) ∧
      (∀ count span, frame.Raises ⟨.missingOperator count, span⟩ →
        operandCount frame.scan.tokens = operatorCount frame.scan.tokens + count ∧ 2 ≤ count) ∧
      (∀ span, frame.Raises ⟨.emptyExpression, span⟩ →
        ∀ token ∈ frame.scan.tokens, token.kind = .leftParen ∨ token.kind = .rightParen) ∧
      (∀ count, frame.evaluate = .error ⟨.missingOperator count, frame.span⟩ →
        operandCount frame.scan.tokens = operatorCount frame.scan.tokens + count ∧ 2 ≤ count) ∧
      (frame.evaluate = .error ⟨.emptyExpression, frame.span⟩ →
        ∀ token ∈ frame.scan.tokens, token.kind = .leftParen ∨ token.kind = .rightParen)) ∧
    ∀ value, evaluate text = .ok value →
      (Frame.whole (normalize text)).evaluateNoting =
        .ok (value, (Frame.whole (normalize text)).frames) ∧
      (Frame.whole (normalize text)).frames.map Frame.offset = 0 ::
        (Text.rootPlaces 0 (normalize text)).map (· + Text.bytes Token.rootOpening) ∧
      numberCount (Frame.whole (normalize text)).allTokens =
        operatorCount (Frame.whole (normalize text)).allTokens + 1 := by
  refine ⟨fun frame _ => ⟨fun value hvalue => ?_, fun _ _ h => h.missingOperator,
    fun _ h => h.emptyExpression,
    fun _ h => (Frame.raises_of_evaluate h trivial).missingOperator,
    fun h => (Frame.raises_of_evaluate h trivial).emptyExpression⟩, fun value hvalue => ?_⟩
  · obtain ⟨hsound, hcount, -⟩ := Frame.account_of_evaluate hvalue
    exact ⟨hsound, hcount⟩
  · rw [evaluate_eq_ok_iff] at hvalue
    refine ⟨?_, Frame.map_offset_frames ⟨value, hvalue⟩,
      Frame.numberCount_allTokens ⟨value, hvalue⟩⟩
    rw [Frame.evaluateNoting_eq, hvalue]
    rfl

/-- A root and the root in its argument are evaluated once each, two values side by side are one too
many, and in a root there may be nothing but parentheses. -/
theorem evaluate_account_nested :
    (∃ frames, (Frame.whole "√(2+√(4))*3".toList).evaluateNoting = .ok (6, frames) ∧
      frames.map Frame.offset = [0, 4, 10]) ∧
    operandCount (Frame.whole "2(3)".toList).scan.tokens = 2 ∧
    ∀ token ∈ (Frame.mk 4 "()".toList).scan.tokens,
      token.kind = .leftParen ∨ token.kind = .rightParen := by
  have hvalue : evaluate "sqrt(2 + sqrt(4)) * 3".toList = .ok 6 := by decide +kernel
  have hseveral : (Frame.whole "2(3)".toList).evaluate =
      .error ⟨.missingOperator 2, (Frame.whole "2(3)".toList).span⟩ := by decide +kernel
  have hempty : (Frame.mk 4 "()".toList).Raises ⟨.emptyExpression, ⟨4, 6⟩⟩ :=
    Frame.raises_of_arguments_eq_nil (List.length_eq_zero_iff.mp (by decide +kernel))
      (by decide +kernel)
  have hargument : Frame.mk 4 "()".toList ∈
      (Frame.whole (normalize "sqrt(())".toList)).arguments :=
    Frame.mem_arguments_iff.mpr
      ⟨⟨.root "()".toList, "√(())".toList, 0⟩, by decide +kernel, _, rfl, rfl⟩
  obtain ⟨-, hframes⟩ := evaluate_account "sqrt(2 + sqrt(4)) * 3".toList
  obtain ⟨houter, -⟩ := evaluate_account "2(3)".toList
  obtain ⟨hinner, -⟩ := evaluate_account "sqrt(())".toList
  obtain ⟨hnoting, hplaces, -⟩ := hframes _ hvalue
  obtain ⟨-, -, -, hcount, -⟩ := houter _ (Frame.self_mem_frames _)
  obtain ⟨-, -, hparens, -⟩ :=
    hinner _ (Frame.mem_frames_iff.mpr (.inr ⟨_, hargument, Frame.self_mem_frames _⟩))
  have hoperators : operatorCount (Frame.whole "2(3)".toList).scan.tokens = 0 := by
    decide +kernel
  refine ⟨⟨_, hnoting, hplaces.trans (by decide +kernel)⟩, ?_, hparens _ hempty⟩
  have hoperands := (hcount 2 hseveral).1
  rw [show normalize "2(3)".toList = "2(3)".toList from rfl, hoperators] at hoperands
  exact hoperands

end Surd
