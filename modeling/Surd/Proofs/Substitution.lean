import Surd.Proofs.Evaluation.Group
import Surd.Proofs.Evaluation.Hole
import Surd.Proofs.Normal
import Surd.Proofs.Number.Result

/-!
# Writing a result for a group

What stands between parentheses and has a value can be replaced by the text of that value: whatever
stands around the group, right or wrong, the whole has the same value afterwards or fails for the
same cause (`evaluate_group_congr`).
-/

namespace Surd

open Front

/-- What evaluates on its own, between parentheses, leaves its value. -/
theorem Scanner.evaluateFrom_group {inner : Text} {value : Float}
    (hvalue : (Frame.whole inner).evaluate = .ok value) (span : Span) (offset : Nat)
    (previous : Option Char) (right : Text) (waiting : Stacks) :
    ∃ behind, (scan ⟨offset, previous, '(' :: inner ++ [')'] ++ right⟩).evaluateFrom span waiting =
      (scan ⟨behind, some ')', right⟩).evaluateFrom span (waiting.push value) := by
  have hcut : Cut inner (')' :: right) := cut_cons (by decide) (by decide) (by decide)
  have hinner := Frame.evaluate_elsewhere hvalue (offset + 1)
  have hsound : (scan ⟨offset + 1, none, inner⟩).fault = none :=
    (Frame.account_of_evaluate hinner).1
  have hopening : scan ⟨offset + 1, some '(', inner ++ ')' :: right⟩ =
      scan ⟨offset + 1, none, inner ++ ')' :: right⟩ := scan_congr_previous rfl
  have htext : '(' :: inner ++ [')'] ++ right = '(' :: (inner ++ ')' :: right) := by simp
  refine ⟨offset + 1 + Text.bytes inner + 1, ?_⟩
  rw [htext, scan_leftParen, hopening, scan_append hcut hsound, scan_rightParen, Scan.after_after,
    Scan.after_after, Scan.evaluateFrom_after]
  have hgroup := @Frame.feedAll_group ⟨offset + 1, inner⟩ value ⟨.leftParen, ['('], offset⟩
    ⟨.rightParen, [')'], offset + 1 + Text.bytes inner⟩ hinner rfl rfl waiting
  rw [List.singleton_append]
  change Frame.feedAll (_ :: (Frame.mk (offset + 1) inner).scan.tokens ++ _) waiting >>= _ = _
  rw [hgroup]
  rfl

/-- Two texts that are balanced and go on alike with equal numbers stand for each other anywhere. -/
theorem Interchangeable.of_alike {hole hole' : Text} (hne : hole ≠ [] ∧ hole' ≠ [])
    (hbalanced : Text.Balanced hole ∧ Text.Balanced hole')
    (halike : ∀ span span' offset previous right waiting,
      Alike Eq ((Scanner.scan ⟨offset, previous, hole ++ right⟩).evaluateFrom span waiting)
        ((Scanner.scan ⟨offset, previous, hole' ++ right⟩).evaluateFrom span' waiting))
    (allowed : Bool) : Interchangeable (Alike Eq) allowed (fun _ => True) hole hole' := by
  refine .of_kept keptByCalculation_eq hne hbalanced (fun _ _ _ => trivial) ?_ ?_
  · exact fun span span' offset previous right waiting _ _ =>
      halike span span' offset previous right waiting
  · exact fun _ _ offset offset' _ rest waiting _ _ _ hab =>
      Scan.evaluateFrom_alike (Scanner.scan_alike rfl offset offset' rest) (.push hab waiting)

variable {inner inner' : Text} {value : Float}

/-- Groups with the same value stand for each other. -/
theorem interchangeable_group (hvalue : (Frame.whole inner).evaluate = .ok value)
    (hvalue' : (Frame.whole inner').evaluate = .ok value) (allowed : Bool) :
    Interchangeable (Alike Eq) allowed (fun _ => True) ('(' :: inner ++ [')'])
      ('(' :: inner' ++ [')']) := by
  have hbalanced : Text.Balanced inner := Frame.balanced_of_evaluate hvalue
  have hbalanced' : Text.Balanced inner' := Frame.balanced_of_evaluate hvalue'
  refine .of_alike ⟨by simp, by simp⟩
    ⟨hbalanced.group, hbalanced'.group⟩ (fun span span' offset previous right waiting => ?_) allowed
  obtain ⟨behind, hfirst⟩ :=
    Scanner.evaluateFrom_group hvalue span offset previous right waiting
  obtain ⟨behind', hsecond⟩ :=
    Scanner.evaluateFrom_group hvalue' span' offset previous right waiting
  rw [hfirst, hsecond]
  exact Scan.evaluateFrom_alike (Scanner.scan_alike rfl behind behind' right)
    (.refl (fun _ => rfl) _)

/-- Roots of arguments with the same value stand for each other. -/
theorem interchangeable_root (hvalue : (Frame.whole inner).evaluate = .ok value)
    (hvalue' : (Frame.whole inner').evaluate = .ok value) (allowed : Bool) :
    Interchangeable (Alike Eq) allowed (fun _ => True) (Token.rootOpening ++ inner ++ [')'])
      (Token.rootOpening ++ inner' ++ [')']) := by
  have hbalanced : Text.Balanced inner := Frame.balanced_of_evaluate hvalue
  have hbalanced' : Text.Balanced inner' := Frame.balanced_of_evaluate hvalue'
  have hroot {text : Text} (h : Text.Balanced text) :
      Text.Balanced (Token.rootOpening ++ text ++ [')']) := by
    rw [Text.balanced_iff, Token.rootOpening, List.append_assoc, List.cons_append,
      Text.depthAfter?_plain (by decide) (by decide)]
    exact Text.balanced_iff.mp h.group
  have htext (text right : Text) : Token.rootOpening ++ text ++ [')'] ++ right =
      Token.rootOpening ++ (text ++ ')' :: right) := by simp
  refine .of_alike ⟨by simp, by simp⟩
    ⟨hroot hbalanced, hroot hbalanced'⟩ (fun span span' offset previous right waiting => ?_) allowed
  rw [htext, htext, Scanner.scan_root (splitClose_eq_some_iff.mpr ⟨rfl, hbalanced⟩),
    Scanner.scan_root (splitClose_eq_some_iff.mpr ⟨rfl, hbalanced'⟩), Scan.evaluateFrom_after,
    Scan.evaluateFrom_after]
  refine (Frame.feedAll_root_alike keptByCalculation_eq rfl rfl ?_).bind
    fun next next' hnext => ?_
  · change Alike Eq (Frame.mk _ inner).evaluate (Frame.mk _ inner').evaluate
    rw [Frame.evaluate_elsewhere hvalue, Frame.evaluate_elsewhere hvalue']
    exact .ok rfl
  · obtain ⟨a, b, hab, rfl, rfl⟩ := hnext
    exact Scan.evaluateFrom_alike (Scanner.scan_alike rfl _ _ right) (.push hab waiting)

/-- Frames with groups of the same value in the same place evaluate alike. The parentheses may be
those of a root. -/
theorem Frame.evaluate_alike_of_group (hvalue : (Frame.whole inner).evaluate = .ok value)
    (hvalue' : (Frame.whole inner').evaluate = .ok value) (left right : Text) :
    Alike Eq (Frame.whole (left ++ '(' :: (inner ++ ')' :: right))).evaluate
      (Frame.whole (left ++ '(' :: (inner' ++ ')' :: right))).evaluate := by
  by_cases hroot : left.getLast? = some '√'
  · obtain ⟨front, rfl⟩ := List.getLast?_eq_some_iff.mp hroot
    have hcut (text : Text) : Cut front (Token.rootOpening ++ text ++ [')']) :=
      cut_cons (by decide) (by decide) (by decide)
    have hroots := interchangeable_root hvalue hvalue' (signAllowed front.getLast?)
    have halike := hroots.evaluate_related 0 front right (hcut inner) (hcut inner') rfl trivial
    simpa [Frame.whole, Token.rootOpening] using halike
  · have hcut (text : Text) : Cut left ('(' :: text ++ [')']) := by
      intro c hc d hd
      cases hd
      have hc : c ≠ '√' := by
        rintro rfl
        exact hroot hc
      have hopen : isNumeric '(' = false := by decide
      simp [joins, hc, hopen]
    have hgroups := interchangeable_group hvalue hvalue' (signAllowed left.getLast?)
    have halike := hgroups.evaluate_related 0 left right (hcut inner) (hcut inner') rfl trivial
    simpa [Frame.whole] using halike

/-- The text of a number is a single token. -/
theorem NumberText.scan_whole {literal : Text} (h : NumberText true literal value) :
    (Frame.whole literal).scan = ⟨[⟨.number value, literal, 0⟩], none⟩ := by
  have hnumber := @Scanner.scan_number 0 none literal [] value h (cut_nil_right _)
  rw [List.append_nil, Scanner.scan_nil] at hnumber
  exact hnumber

/-- The text of a number evaluates to that number. -/
theorem NumberText.evaluate {literal : Text} (h : NumberText true literal value) :
    (Frame.whole literal).evaluate = .ok value := by
  rw [Frame.evaluate_eq_evaluateFrom, h.scan_whole]
  rfl

/-- The text of a number is its own normal form. -/
theorem NumberText.normalize_eq {allowed : Bool} {literal : Text}
    (h : NumberText allowed literal value) : normalize literal = literal := by
  refine normalize_of_plain (fun c hc => ?_) fun hs => ?_
  · rcases h.isNumeric_of_mem hc with hc | rfl | rfl
    · exact isBlank_of_isNumeric hc
    · decide
    · decide
  · exact h.ne_of_mem hs (by decide) (by decide) (by decide) rfl

/-- A group that has a value of its own can be replaced by the text of that value. Around it there
may be anything, a root sign in front of the group and faults included. -/
theorem evaluate_group_congr {group : Text} (hvalue : evaluate group = .ok value)
    (hfinite : Binary64.pattern value < Binary64.infinity)
    (hzero : value ≠ Binary64.toFloat true 0) (left right : Text) :
    (evaluate (left ++ '(' :: (group ++ ')' :: right))).mapError
        (fun diagnostic => (diagnostic.cause, diagnostic.cause.message)) =
      (evaluate (left ++ '(' :: (Number.result value ++ ')' :: right))).mapError
        (fun diagnostic => (diagnostic.cause, diagnostic.cause.message)) := by
  obtain ⟨front, hfront⟩ := exists_normalize_leftParen left
  have hnormal (inner : Text) : normalize (left ++ '(' :: (inner ++ ')' :: right)) =
      front ++ '(' :: (normalize inner ++ ')' :: normalize right) := by
    rw [normalize_append_leftParen, hfront, normalize_append_rightParen, List.append_assoc]
    rfl
  have hresult : NumberText true (Number.result value) value :=
    Number.numberText_result hfinite hzero fun _ => rfl
  have halike := Frame.evaluate_alike_of_group (evaluate_eq_ok_iff.mp hvalue)
    hresult.evaluate front (normalize right)
  simp only [evaluate, evaluateNormal, hnormal, hresult.normalize_eq]
  exact halike.mapError_within_eq _ _ fun cause => (cause, cause.message)

/-- The parentheses of a root around a sum whose value is four; the text is not closed properly. -/
theorem evaluate_group_congr_root :
    (evaluate "sqrt(1 + 3) / 0)".toList).mapError
        (fun diagnostic => (diagnostic.cause, diagnostic.cause.message)) =
      (evaluate "sqrt(4) / 0)".toList).mapError
        (fun diagnostic => (diagnostic.cause, diagnostic.cause.message)) := by
  have hvalue : evaluate "1 + 3".toList = .ok 4 := by decide +kernel
  have hfinite : Binary64.pattern 4 < Binary64.infinity := by decide +kernel
  have hzero : (4 : Float) ≠ Binary64.toFloat true 0 := by decide +kernel
  have hresult : Number.result 4 = ['4'] := by decide +kernel
  have hcongr := evaluate_group_congr hvalue hfinite hzero "sqrt".toList " / 0)".toList
  rw [hresult] at hcongr
  exact hcongr

end Surd
