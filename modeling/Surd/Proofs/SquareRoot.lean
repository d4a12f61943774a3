import Mathlib.Logic.Function.Iterate
import Surd.Proofs.Evaluation.Shift
import Surd.Proofs.Normal
import Surd.Proofs.Token.Reading

/-!
# The square root of a text

The value of `sqrt(…)` is decided by what stands in the parentheses, whatever that is, as long as
its parentheses match: by its value, which must not be below zero, or by its fault, which then lies
four bytes further behind. Such a root has matching parentheses again, so the same can be said of
roots in roots (`evaluate_rootText`).
-/

namespace Surd

open Text Front

/-- The text of the square root of a text. -/
def rootText (text : Text) : Text := "sqrt(".toList ++ text ++ [')']

/-- The normal form of a root is that of its argument, in parentheses behind a root sign. -/
theorem normalize_rootText (text : Text) :
    normalize (rootText text) = Token.rootOpening ++ normalize text ++ [')'] := by
  have hopening : normalize "sqrt(".toList = Token.rootOpening := by decide
  have hsplit := normalize_append_leftParen "sqrt".toList (text ++ [')'])
  rw [normalize_append_rightParen] at hsplit
  change normalize ("sqrt(".toList ++ text ++ [')']) = _
  rw [List.append_assoc, List.append_assoc, ← hopening]
  exact hsplit

/-- A root of a balanced text is balanced. -/
theorem balanced_rootText {text : Text} (hbalanced : Balanced text) : Balanced (rootText text) := by
  have hletters : depthAfter? 0 "sqrt".toList = some 0 := by decide
  have hgroup := balanced_iff.mp hbalanced.group
  change Balanced ("sqrt".toList ++ ('(' :: text ++ [')']))
  rw [balanced_iff, depthAfter?_append, hletters, Option.bind_some, hgroup]

/-- Roots of roots of a balanced text are balanced. -/
theorem balanced_iterate_rootText {text : Text} (hbalanced : Balanced text) (depth : Nat) :
    Balanced (rootText^[depth] text) := by
  induction depth with
  | zero => exact hbalanced
  | succ depth ih =>
    rw [Function.iterate_succ_apply']
    exact balanced_rootText ih

namespace Frame

/-- A frame that is a single root has the root of what its argument has. -/
theorem evaluate_root {body : Text} (hbalanced : Balanced body) (offset : Nat) :
    (Frame.mk offset (Token.rootOpening ++ body ++ [')'])).evaluate =
      (Frame.mk (offset + 4) body).evaluate >>=
        rootOf ⟨.root body, Token.rootOpening ++ body ++ [')'], offset⟩ := by
  have hsplit : splitClose 0 (body ++ [')']) = some (body, []) :=
    splitClose_eq_some_iff.mpr ⟨rfl, hbalanced⟩
  have hscan : Frame.scan ⟨offset, Token.rootOpening ++ body ++ [')']⟩ =
      ⟨[⟨.root body, Token.rootOpening ++ body ++ [')'], offset⟩], none⟩ := by
    change Scanner.scan ⟨offset, none, _⟩ = _
    rw [List.append_assoc, Scanner.scan_root hsplit, Scanner.scan_nil, List.append_assoc]
    rfl
  rw [evaluate_eq_evaluateFrom, hscan, Scan.evaluateFrom, feedAll_singleton]
  simp only [feed]
  change ((Frame.mk (offset + 4) body).evaluate >>= _) >>= _ = _
  cases (Frame.mk (offset + 4) body).evaluate with
  | error fault => rfl
  | ok value =>
    change (rootOf _ value >>= _) >>= _ = rootOf _ value
    cases rootOf _ value with
    | error fault => rfl
    | ok root => rfl

end Frame

/-- A root of a text has the root of the value of the text, or its fault four bytes further
behind. -/
theorem evaluate_eq_rootText {text : Text} (hbalanced : Balanced text) :
    evaluate (rootText text) =
      ((Frame.whole (normalize text)).evaluate.mapError (Fault.shift 4) >>=
        Frame.rootOf ⟨.root (normalize text), normalize (rootText text), 0⟩).mapError
          (Fault.within (normalize (rootText text))) := by
  have hshift := Frame.evaluate_shift 4 (Frame.whole (normalize text))
  rw [evaluate, evaluateNormal, ← hshift, normalize_rootText]
  exact congrArg _ (Frame.evaluate_root (balanced_normalize.mpr hbalanced) 0)

/-- The root of a text whose parentheses match, under any number of other roots, is decided by the
text. Its normal form is that of the text between `√(` and `)`. If the text has a value below zero,
it fails because of that, and the whole of it is marked. If the text has any other value, be it
negative zero or no number, it has the root of that value. And if the text fails, it fails for the
same cause, in a span of the same length that lies four bytes further behind. -/
theorem evaluate_rootText {text : Text} (hbalanced : Balanced text) (depth : Nat) :
    let argument := rootText^[depth] text
    let source := Token.rootOpening ++ normalize argument ++ [')']
    normalize (rootText argument) = source ∧
      (∀ value, evaluate argument = .ok value → value < 0 →
        evaluate (rootText argument) =
          .error ⟨⟨.negativeRoot value, .whole source⟩, source⟩) ∧
      (∀ value, evaluate argument = .ok value → ¬ value < 0 →
        evaluate (rootText argument) = .ok value.sqrt) ∧
      ∀ diagnostic, evaluate argument = .error diagnostic →
        evaluate (rootText argument) =
          .error ⟨⟨diagnostic.cause, diagnostic.span.shift 4⟩, source⟩ := by
  intro argument source
  have hsource : normalize (rootText argument) = source := normalize_rootText argument
  have hroot := evaluate_eq_rootText (balanced_iterate_rootText hbalanced depth)
  change evaluate (rootText argument) = _ at hroot
  rw [hsource] at hroot
  refine ⟨hsource, fun value hvalue hnegative => ?_, fun value hvalue hpositive => ?_,
    fun diagnostic hfault => ?_⟩
  · rw [hroot, evaluate_eq_ok_iff.mp hvalue]
    change (Frame.rootOf _ value).mapError _ = _
    rw [Frame.rootOf, if_pos hnegative]
    rfl
  · rw [hroot, evaluate_eq_ok_iff.mp hvalue]
    change (Frame.rootOf _ value).mapError _ = _
    rw [Frame.rootOf, if_neg hpositive]
    rfl
  · rw [hroot, (evaluate_eq_error_iff.mp hfault).1]
    rfl

/-- A character that is no token lies four bytes further behind under every root, with the two bytes
that it has. The root of negative zero is negative zero, and the root of a difference below zero is
marked as a whole. -/
theorem evaluate_rootText_nested :
    Balanced " (é)".toList ∧
      evaluate (rootText (rootText " (é)".toList)) =
        .error ⟨⟨.unexpectedCharacter 'é', ⟨9, 11⟩⟩, "√(√((é)))".toList⟩ ∧
      evaluate (rootText "0*-1".toList) = .ok (Binary64.toFloat true 0) ∧
      evaluate (rootText "1-5".toList) =
        .error ⟨⟨.negativeRoot (-4), ⟨0, 8⟩⟩, "√(1-5)".toList⟩ := by
  have hbalanced : Balanced " (é)".toList := by decide
  have hfault : evaluate (rootText " (é)".toList) =
      .error ⟨⟨.unexpectedCharacter 'é', ⟨5, 7⟩⟩, "√((é))".toList⟩ := by decide +kernel
  have hzero : evaluate "0*-1".toList = .ok (Binary64.toFloat true 0) := by decide +kernel
  have hnegative : evaluate "1-5".toList = .ok (-4) := by decide +kernel
  have hroot : evaluate (rootText "0*-1".toList) = .ok (Binary64.toFloat true 0).sqrt :=
    (evaluate_rootText (by decide) 0).2.2.1 _ hzero (by decide +kernel)
  have hsame : (Binary64.toFloat true 0).sqrt = Binary64.toFloat true 0 := by decide +kernel
  rw [hsame] at hroot
  exact ⟨hbalanced, (evaluate_rootText hbalanced 1).2.2.2 _ hfault, hroot,
    (evaluate_rootText (by decide) 0).2.1 _ hnegative (by decide +kernel)⟩

end Surd
