import Surd.Proofs.Evaluation.Flaw
import Surd.Proofs.Evaluation.Group
import Surd.Proofs.Token.Tiling

/-!
# Parentheses without a counterpart

Parentheses are looked at in three places: the scan searches for the one that closes a root, the
stack of operators holds the groups that are open, and at the end none of them may be left. Together
these say what the text says. A text whose parentheses do not match has no value, and a text whose
parentheses match never fails because of one (`Frame.Flaw.not_unpaired`). As the argument of a root
is balanced by itself, only the outermost frame can fail so.
-/

namespace Surd

open Text Front

/-- Whether a cause is a parenthesis without a counterpart. A root sign without any parenthesis is
not meant. -/
def Cause.IsUnpaired : Cause → Prop
  | unmatchedClose | unclosedParen | unterminatedRoot => True
  | _ => False

/-- A text is not balanced if it closes more than was opened before. -/
theorem Text.not_balanced_of_close {left : Text} (hdepth : depthAfter? 0 left = some 0)
    (right : Text) : ¬ Balanced (left ++ ')' :: right) := by
  rw [balanced_iff, depthAfter?_append, hdepth, Option.bind_some, depthAfter?_close_zero]
  exact fun h => by cases h

/-- A text is not balanced if the parenthesis of a root in it is never closed. -/
theorem Text.not_balanced_of_open_root {inner : Text} (hsplit : splitClose 0 inner = none)
    (left : Text) : ¬ Balanced (left ++ '√' :: '(' :: inner) := by
  obtain ⟨rest, hrest⟩ := splitClose_eq_none_iff.mp hsplit
  rw [balanced_iff, depthAfter?_append, Option.bind_eq_some_iff]
  rintro ⟨depth, -, hdepth⟩
  rw [depthAfter?_plain (by decide) (by decide), depthAfter?_open] at hdepth
  have hclosed := (depthAfter?_eq_some_iff.mp hdepth).1
  have hopen := (depthAfter?_eq_some_iff.mp hrest).1
  omega

namespace Frame

variable {frame : Frame} {fault : Fault}

/-- The argument of a root is balanced. -/
theorem balanced_of_mem_arguments {argument : Frame} (hmem : argument ∈ frame.arguments) :
    Balanced argument.text := by
  obtain ⟨token, htoken, body, hkind, rfl⟩ := mem_arguments_iff.mp hmem
  exact ((Scanner.spelled_of_mem htoken).root hkind).2

/-- In a balanced frame no parenthesis is without a counterpart. -/
theorem Flaw.not_unpaired (h : frame.Flaw fault) (hbalanced : Balanced frame.text) :
    ¬ fault.cause.IsUnpaired := by
  cases h with
  | missingOperand | divisionByZero | negativeRoot | missingOperator | emptyExpression => exact id
  | scan hfault =>
    obtain ⟨left, piece, right, htext, -, -, hrejects, -⟩ := Scanner.exists_rejects hfault
    cases hcause : fault.cause with
    | unterminatedRoot =>
      rw [hcause] at hrejects
      cases hrejects with
      | unterminatedRoot hsplit =>
        rw [htext, List.append_nil] at hbalanced
        exact absurd hbalanced (not_balanced_of_open_root hsplit left)
    | unmatchedClose | unclosedParen =>
      rw [hcause] at hrejects
      cases hrejects
    | _ => exact id
  | @unmatchedClose before after token hsplit hkind hdepth =>
    -- what stands before the parenthesis is closed as far as it is opened
    obtain ⟨right, htext, -, hscan⟩ := Scanner.exists_rest hsplit
    obtain ⟨-, rest, rfl, -, -⟩ := Scanner.exists_rest_of_cons (congrArg Scan.tokens hscan)
    have hspelled : ∀ first ∈ before ++ token :: after, first.Spelled := fun first hmem =>
      Scanner.spelled_of_mem (hsplit ▸ hmem)
    rw [(hspelled token (by simp)).rightParen hkind] at htext
    rw [← Token.depthAfter?_join fun first hmem => hspelled first (List.mem_append_left _ hmem)]
      at hdepth
    rw [htext] at hbalanced
    exact absurd hbalanced (not_balanced_of_close hdepth rest)
  | unclosedParen hmem hkind hsound hdepth =>
    have hopen := Scanner.depthAfter?_text hsound 0
    have hclosed := balanced_iff.mp hbalanced
    change depthAfter? 0 frame.text = tokenDepth? 0 frame.scan.tokens at hopen
    rw [hdepth, hclosed] at hopen
    cases hopen

/-- A balanced frame never fails because of a parenthesis without a counterpart, in itself or in
the arguments of its roots. -/
theorem not_unpaired_of_balanced (hbalanced : Balanced frame.text)
    (hfault : frame.evaluate = .error fault) : ¬ fault.cause.IsUnpaired := by
  obtain ⟨inner, hmem, hraises⟩ := exists_raises hfault
  have hinner : Balanced inner.text :=
    of_mem_frames (motive := fun frame => Balanced frame.text)
      (fun _ _ _ hargument => balanced_of_mem_arguments hargument) hbalanced hmem
  exact hraises.flaw.not_unpaired hinner

end Frame

/-- What a text says about its parentheses is what evaluation finds. If they do not match, the text
has no value. If they match, none of them is ever without a counterpart. That also holds of the
arguments of roots at every depth, so that it is the outermost frame that raises such a fault. -/
theorem evaluate_parentheses (text : Text) :
    (¬ Balanced (normalize text) → ∃ diagnostic, evaluate text = .error diagnostic) ∧
    (Balanced (normalize text) →
      ∀ diagnostic, evaluate text = .error diagnostic → ¬ diagnostic.cause.IsUnpaired) ∧
    (∀ frame ∈ (Frame.whole (normalize text)).frames, ∀ argument ∈ frame.arguments,
      ∀ fault, argument.evaluate = .error fault → ¬ fault.cause.IsUnpaired) ∧
    ∀ diagnostic, evaluate text = .error diagnostic → diagnostic.cause.IsUnpaired →
      (Frame.whole (normalize text)).Raises diagnostic.toFault := by
  have harguments (frame : Frame) : ∀ argument ∈ frame.arguments, ∀ fault,
      argument.evaluate = .error fault → ¬ fault.cause.IsUnpaired := fun argument hmem fault =>
    Frame.not_unpaired_of_balanced (Frame.balanced_of_mem_arguments hmem)
  refine ⟨fun hunbalanced => ?_, fun hbalanced diagnostic hfault => ?_,
    fun frame _ => harguments frame, fun diagnostic hfault hunpaired => ?_⟩
  · cases hvalue : evaluate text with
    | ok value =>
      have hbalanced := Frame.balanced_of_evaluate (evaluate_eq_ok_iff.mp hvalue)
      exact absurd hbalanced hunbalanced
    | error diagnostic => exact ⟨diagnostic, rfl⟩
  · exact Frame.not_unpaired_of_balanced hbalanced (evaluate_eq_error_iff.mp hfault).1
  · rcases Frame.evaluate_eq_error_iff.mp (evaluate_eq_error_iff.mp hfault).1 with
      hraises | hinherits
    · exact hraises
    · obtain ⟨argument, hmem, hargument⟩ := hinherits.exists_argument
      exact absurd hunpaired (harguments _ argument hmem _ hargument)

/-- A root that is not closed is the fault of the whole text. Where the parentheses match, neither
the text nor a root in a root fails because of one. -/
theorem evaluate_parentheses_open_root :
    (∃ diagnostic, evaluate "1 + sqrt(2*(3)".toList = .error diagnostic) ∧
    (Frame.whole (normalize "1 + sqrt(2*(3)".toList)).Raises ⟨.unterminatedRoot, ⟨2, 11⟩⟩ ∧
    ¬ Cause.divisionByZero.IsUnpaired ∧ ¬ (Cause.missingOperand .mul).IsUnpaired := by
  have hunbalanced : ¬ Balanced (normalize "1 + sqrt(2*(3)".toList) := by decide +kernel
  have hunpaired : evaluate "1 + sqrt(2*(3)".toList =
      .error ⟨⟨.unterminatedRoot, ⟨2, 11⟩⟩, "1+√(2*(3)".toList⟩ := by decide +kernel
  have hbalanced : Balanced (normalize "sqrt(4)/(1-1)".toList) := by decide +kernel
  have hfault : evaluate "sqrt(4)/(1-1)".toList =
      .error ⟨⟨.divisionByZero, ⟨6, 7⟩⟩, "√(4)/(1-1)".toList⟩ := by decide +kernel
  have hargument : Frame.mk 4 "√(3*)".toList ∈
      (Frame.whole (normalize "sqrt(sqrt(3*))".toList)).arguments :=
    Frame.mem_arguments_iff.mpr
      ⟨⟨.root "√(3*)".toList, "√(√(3*))".toList, 0⟩, by decide +kernel, _, rfl, rfl⟩
  have hinner : (Frame.mk 4 "√(3*)".toList).evaluate =
      .error ⟨.missingOperand .mul, ⟨9, 10⟩⟩ := by decide +kernel
  obtain ⟨hnone, -, -, houter⟩ := evaluate_parentheses "1 + sqrt(2*(3)".toList
  obtain ⟨-, hnever, -, -⟩ := evaluate_parentheses "sqrt(4)/(1-1)".toList
  obtain ⟨-, -, hnested, -⟩ := evaluate_parentheses "sqrt(sqrt(3*))".toList
  exact ⟨hnone hunbalanced, houter _ hunpaired trivial, hnever hbalanced _ hfault,
    hnested _ (Frame.self_mem_frames _) _ hargument _ hinner⟩

end Surd
