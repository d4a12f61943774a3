import Surd.Session
import Surd.Proofs.Evaluation.LastOperand
import Surd.Proofs.Normal

/-!
# Exchanging the last number of a typed text

What a keyboard types has no blank characters, so its normal form can be taken on the two sides of a
number. Texts that differ in their last number only have results that agree, if both numbers can
stand in the place and are the same up to the sign of a zero (`Around.agree_number`), also if an
operator stands in front of them (`Around.agree_operator`).
-/

namespace Surd

open Front

/-- Two results agree if both are values, and equal ones unless neither is a number, or both are
diagnostics. -/
def Agree : Except Diagnostic Float → Except Diagnostic Float → Prop
  | .ok a, .ok b => (a == b) = true ∨ a.isNaN = true ∧ b.isNaN = true
  | .error _, .error _ => True
  | _, _ => False

/-- Evaluations that are alike up to the sign of a zero have results that agree. -/
theorem Alike.agree {first second : Except Fault Float}
    (h : Alike Binary64.SameUpToZero first second) (source source' : Text) :
    Agree (first.mapError (Fault.within source)) (second.mapError (Fault.within source')) := by
  cases h with
  | ok h => exact h.beq_or_isNaN
  | error h => trivial

/-- No key types a blank character. -/
theorem isBlank_of_isKey {c : Char} (hc : isKey c = true) : isBlank c = false := by
  rw [isKey, Bool.or_eq_true] at hc
  rcases hc with hc | hc
  · exact isBlank_of_isNumeric (by rw [isNumeric, hc, Bool.true_or])
  · have hkeys : ∀ d ∈ ['.', '+', '-', '*', '/', '^', '%', '(', ')', 's', 'q', 'r', 't'],
        isBlank d = false := by
      simp [isBlank, blankRanges]
    exact hkeys c (List.contains_iff_mem.mp hc)

/-- Marking roots in it does not change that a text trails a number. -/
theorem Trails.markRoots {right : Text} (h : Trails right) : Trails (Surd.markRoots right) := by
  constructor
  · intro c hc
    rcases mem_of_mem_markRoots hc with hc | rfl
    · exact h.plain c hc
    · decide
  · exact fun hhead => h.head_ne (head?_of_head?_markRoots (by decide) hhead)

/-- A number is cut from what stands before it, unless that ends in a digit, a point or a minus
sign. -/
theorem NumberText.cut_left {allowed : Bool} {literal before : Text} {value : Float}
    (h : NumberText allowed literal value)
    (hbefore : ∀ c ∈ before.getLast?, isNumeric c = false ∧ c ≠ '-') : Cut before literal := by
  intro c hc d hd
  obtain ⟨hplain, hminus⟩ := hbefore c hc
  have hopen : d ≠ '(' :=
    h.ne_of_mem (List.mem_of_mem_head? hd) (by decide) (by decide) (by decide)
  simp [joins, hplain, hminus, hopen]

/-- Where a sign is allowed, a number may have one. -/
theorem NumberText.of_allowed {allowed : Bool} {literal : Text} {value : Float}
    (h : NumberText true literal value) (hallowed : allowed = true) :
    NumberText allowed literal value := by
  rwa [hallowed]

/-- The text of a number consists of figures. -/
theorem NumberText.isFigures {allowed : Bool} {literal : Text} {value : Float}
    (h : NumberText allowed literal value) : IsFigures literal := by
  intro c hc
  refine (h.isNumeric_of_mem hc).imp_right ?_
  rintro (rfl | rfl)
  · decide
  · decide

/-- What stands around the last number of a text. -/
structure Around (before after : Text) : Prop where
  blank_before : ∀ c ∈ before, isBlank c = false
  blank_after : ∀ c ∈ after, isBlank c = false
  trails : Trails after

variable {before after hole hole' : Text} {a b : Float}

/-- The normal form of a text is that of what stands around figures. -/
theorem Around.normalize_eq (haround : Around before after) (hne : hole ≠ [])
    (hfigures : IsFigures hole) :
    normalize (before ++ (hole ++ after)) = markRoots before ++ (hole ++ markRoots after) :=
  normalize_splice haround.blank_before haround.blank_after hne hfigures

/-- Texts that stand for each other make the whole agree. -/
theorem Interchangeable.agree {allowed : Bool}
    (h : Interchangeable (Alike Binary64.SameUpToZero) allowed Trails hole hole')
    (haround : Around before after) (hfigures : IsFigures hole ∧ IsFigures hole')
    (hcut : Cut before hole ∧ Cut before hole') (hsign : signAllowed before.getLast? = allowed) :
    Agree (evaluate (before ++ (hole ++ after))) (evaluate (before ++ (hole' ++ after))) := by
  rw [evaluate, evaluate, haround.normalize_eq h.ne_nil.1 hfigures.1,
    haround.normalize_eq h.ne_nil.2 hfigures.2]
  rw [Cut, Cut, ← getLast?_markRoots] at hcut
  rw [← getLast?_markRoots] at hsign
  exact (h.evaluate_related 0 _ _ hcut.1 hcut.2 hsign haround.trails.markRoots).agree _ _

/-- Numbers that are the same up to the sign of a zero make the whole agree. -/
theorem Around.agree_number (haround : Around before after)
    (h : NumberText (signAllowed before.getLast?) hole a)
    (h' : NumberText (signAllowed before.getLast?) hole' b) (hab : Binary64.SameUpToZero a b)
    (hcut : Cut before hole ∧ Cut before hole') :
    Agree (evaluate (before ++ (hole ++ after))) (evaluate (before ++ (hole' ++ after))) :=
  (interchangeable_number h h' hab).agree haround ⟨h.isFigures, h'.isFigures⟩ hcut rfl

/-- A plus or minus sign stays cut from what is before it. -/
theorem Front.Cut.of_sign {op : Operator} (hop : op.symbol ∈ ['+', '-', '%']) (literal : Text) :
    Cut before (op.symbol :: literal) := by
  cases op with
  | add | sub => exact cut_cons (by decide) (by decide) (by decide)
  | mul | div | pow => exact absurd hop (by decide)

/-- So do numbers with an operator in front of them. -/
theorem Around.agree_operator (haround : Around before after) {op : Operator}
    (hop : op.symbol ∈ ['+', '-', '%']) (hbinary : op = .sub → signAllowed before.getLast? = false)
    (h : NumberText true hole a) (h' : NumberText true hole' b)
    (hab : Binary64.SameUpToZero a b) :
    Agree (evaluate (before ++ (op.symbol :: hole ++ after)))
      (evaluate (before ++ (op.symbol :: hole' ++ after))) :=
  (interchangeable_operator hbinary h h' hab).agree haround
    ⟨h.isFigures.cons hop, h'.isFigures.cons hop⟩ ⟨.of_sign hop hole, .of_sign hop hole'⟩ rfl

/-- A number cannot stand in a text with a value both with an operator in front and without. -/
theorem Around.evaluate_ne_ok (haround : Around before after) {op : Operator}
    (hop : op.symbol ∈ ['+', '-', '%']) (hbinary : signAllowed before.getLast? = false)
    (h : NumberText true hole a) (h' : NumberText false hole' b) (hcut : Cut before hole')
    {value : Float} (hvalue : evaluate (before ++ (op.symbol :: hole ++ after)) = .ok value)
    (other : Float) : evaluate (before ++ (hole' ++ after)) ≠ .ok other := by
  have hcut' : Cut before (op.symbol :: hole) := .of_sign hop hole
  rw [evaluate_eq_ok_iff,
    haround.normalize_eq (List.cons_ne_nil _ _) (h.isFigures.cons hop)] at hvalue
  rw [Ne, evaluate_eq_ok_iff, haround.normalize_eq h'.ne_nil h'.isFigures]
  rw [Cut, ← getLast?_markRoots] at hcut hcut'
  rw [← getLast?_markRoots] at hbinary
  exact (apart_operator h h').evaluate_related 0 (markRoots before) (markRoots after) hcut' hcut
    hbinary haround.trails.markRoots value other hvalue

end Surd
