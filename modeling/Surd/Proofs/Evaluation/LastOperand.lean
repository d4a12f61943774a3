import Surd.Proofs.Evaluation.Hole
import Surd.Proofs.Evaluation.Tail

/-!
# Exchanging the last number of a text

Behind the last number of a text there are only characters without digits and points. So numbers
that differ in the sign of a zero at most stand for each other there (`interchangeable_number`),
also together with the operator before them (`interchangeable_operator`). A part that cannot be read
leaves the text around it without a value (`Frame.evaluate_ne_ok_of_fault`).
-/

namespace Surd

open Front

/-- What may follow a last number: characters without digits and points, of which the first one is
no percent sign. -/
structure Trails (right : Text) : Prop where
  plain : ∀ c ∈ right, isNumeric c = false
  head_ne : right.head? ≠ some '%'

namespace Trails

/-- The front of what trails a number trails it too. -/
theorem of_append {front rest : Text} (h : Trails (front ++ rest)) : Trails front := by
  refine ⟨fun c hc => h.plain c (List.mem_append_left _ hc), fun hhead => h.head_ne ?_⟩
  rw [List.head?_append, hhead, Option.some_or]

/-- What is behind a parenthesis has no digits and points either. -/
theorem plain_behind {front rest : Text} (h : Trails (front ++ ')' :: rest)) :
    ∀ c ∈ rest, isNumeric c = false :=
  fun c hc => h.plain c (List.mem_append_right _ (List.mem_cons_of_mem _ hc))

/-- What trails a number is not taken into it. -/
theorem cut {allowed : Bool} {literal right : Text} {value : Float} (hright : Trails right)
    (h : NumberText allowed literal value) : Cut literal right := by
  intro c hc d hd
  have hplain : isNumeric d = false := hright.plain d (List.mem_of_mem_head? hd)
  have hpercent : d ≠ '%' := by
    rintro rfl
    exact hright.head_ne hd
  have hroot : c ≠ '√' :=
    h.ne_of_mem (List.mem_of_getLast? hc) (by decide) (by decide) (by decide)
  simp [joins, hplain, hpercent, hroot]

end Trails

variable {allowed : Bool} {hole hole' right : Text} {a b : Float}

/-- Numbers that differ in the sign of a zero at most are interchangeable as the last operand. -/
theorem Scan.evaluateFrom_alike_of_number {previous : Option Char}
    (h : NumberText (signAllowed previous) hole a) (h' : NumberText (signAllowed previous) hole' b)
    (hab : Binary64.SameUpToZero a b) (hright : Trails right) (span span' : Span) (offset : Nat)
    (waiting : Stacks) :
    Alike Binary64.SameUpToZero
      ((Scanner.scan ⟨offset, previous, hole ++ right⟩).evaluateFrom span waiting)
      ((Scanner.scan ⟨offset, previous, hole' ++ right⟩).evaluateFrom span' waiting) := by
  have hlast : signAllowed hole.getLast? = signAllowed hole'.getLast? := by
    rw [h.signAllowed_getLast?, h'.signAllowed_getLast?]
  rw [Scanner.scan_number h (hright.cut h), Scanner.scan_number h' (hright.cut h'),
    evaluateFrom_after, evaluateFrom_after, Scanner.scan_congr_previous hlast]
  exact evaluateFrom_alike_of_plain keptByCalculation_sameUpToZero hright.plain span span' _ _ _
    (.push hab waiting)

/-- Texts that are read alike before trailing characters are interchangeable as the last operand. -/
theorem Interchangeable.of_trails (hne : hole ≠ [] ∧ hole' ≠ [])
    (hbalanced : Text.Balanced hole ∧ Text.Balanced hole')
    (halike : ∀ span span' offset previous right waiting, signAllowed previous = allowed →
      Trails right → Alike Binary64.SameUpToZero
        ((Scanner.scan ⟨offset, previous, hole ++ right⟩).evaluateFrom span waiting)
        ((Scanner.scan ⟨offset, previous, hole' ++ right⟩).evaluateFrom span' waiting)) :
    Interchangeable (Alike Binary64.SameUpToZero) allowed Trails hole hole' := by
  refine .of_kept keptByCalculation_sameUpToZero hne hbalanced
    (fun _ _ hright => hright.of_append) halike ?_
  exact fun span span' offset offset' _ _ waiting _ _ hright hab =>
    Scan.evaluateFrom_alike_of_plain keptByCalculation_sameUpToZero hright.plain_behind span span'
      offset offset' (some ')') (.push hab waiting)

/-- Numbers that differ in the sign of a zero at most stand for each other at the end of a text. -/
theorem interchangeable_number (h : NumberText allowed hole a) (h' : NumberText allowed hole' b)
    (hab : Binary64.SameUpToZero a b) :
    Interchangeable (Alike Binary64.SameUpToZero) allowed Trails hole hole' := by
  refine .of_trails ⟨h.ne_nil, h'.ne_nil⟩ ⟨h.balanced, h'.balanced⟩
    fun span span' offset previous right waiting hallowed hright => ?_
  subst hallowed
  exact Scan.evaluateFrom_alike_of_number h h' hab hright span span' offset waiting

/-- An operator does not change which numbers stand for each other behind it. -/
theorem interchangeable_operator {op : Operator} (hbinary : op = .sub → allowed = false)
    (h : NumberText true hole a) (h' : NumberText true hole' b) (hab : Binary64.SameUpToZero a b) :
    Interchangeable (Alike Binary64.SameUpToZero) allowed Trails (op.symbol :: hole)
      (op.symbol :: hole') := by
  have hparen : op.symbol ≠ '(' ∧ op.symbol ≠ ')' := by
    cases op <;> decide
  have hsign : signAllowed (some op.symbol) = true := by
    cases op <;> decide
  rw [← hsign] at h h'
  refine .of_trails ⟨by simp, by simp⟩
    ⟨h.balanced.cons hparen.1 hparen.2, h'.balanced.cons hparen.1 hparen.2⟩
    fun span span' offset previous right waiting hallowed hright => ?_
  have hprevious : op = .sub → signAllowed previous = false := fun hsub =>
    hallowed.trans (hbinary hsub)
  rw [List.cons_append, List.cons_append, Scanner.scan_operator hprevious,
    Scanner.scan_operator hprevious, Scan.evaluateFrom_after, Scan.evaluateFrom_after]
  refine (Alike.refl (fun _ => rfl) _).bind fun next next' hnext => ?_
  subst hnext
  exact Scan.evaluateFrom_alike_of_number h h' hab hright span span' _ next

/-! ## Parts that cannot be read -/

/-- A part that cannot be read leaves the whole without a value. -/
theorem Frame.evaluate_ne_ok_of_fault {left : Text} {offset : Nat} {value : Float} (hne : hole ≠ [])
    (hbalanced : Text.Balanced hole) (hcut : Cut left hole) (hright : Trails right)
    (hfault : ∀ offset previous right, signAllowed previous = signAllowed left.getLast? →
      Trails right → (Scanner.scan ⟨offset, previous, hole ++ right⟩).fault ≠ none) :
    (Frame.mk offset (left ++ (hole ++ right))).evaluate ≠ .ok value := by
  have hself : Interchangeable Apart (signAllowed left.getLast?) Trails hole hole := by
    refine .of_apart ⟨hne, hne⟩ ⟨hbalanced, hbalanced⟩ (fun _ _ hright => hright.of_append) ?_
    intro _ _ offset previous right _ hallowed hright _ _ hvalue
    have hsound := (Scan.evaluateFrom_eq_ok_iff.mp hvalue).1
    exact absurd hsound (hfault offset previous right hallowed hright)
  intro hvalue
  exact hself.evaluate_related offset left right hcut hcut rfl hright value value hvalue hvalue

/-! ## An operator that is lost -/

/-- Scans that mean the same have as many operands and as many operators. -/
theorem ScansAlike.counts {scan scan' : Scan} (h : ScansAlike scan scan') :
    operandCount scan.tokens = operandCount scan'.tokens ∧
      operatorCount scan.tokens = operatorCount scan'.tokens := by
  have htokens := h.tokens
  generalize scan.tokens = tokens at htokens
  generalize scan'.tokens = tokens' at htokens
  induction htokens with
  | nil => exact ⟨rfl, rfl⟩
  | @cons first second tokens tokens' htoken _ ih =>
    have hsame : first.isOperand = second.isOperand ∧ first.isOperator = second.isOperator := by
      cases htoken with
      | same hkind => simp only [Token.isOperand, Token.isOperator, hkind, and_self]
      | root hfirst hsecond =>
        simp only [Token.isOperand, Token.isOperator, hfirst, hsecond, and_self]
    simp only [operandCount, operatorCount, List.countP_cons, hsame.1, hsame.2] at ih ⊢
    exact ⟨by rw [ih.1], by rw [ih.2]⟩

/-- A number alone and one with an operator in front cannot both be read in the same place. -/
theorem apart_operator {op : Operator} (h : NumberText true hole a)
    (h' : NumberText false hole' b) :
    Interchangeable Apart false Trails (op.symbol :: hole) hole' := by
  have hparen : op.symbol ≠ '(' ∧ op.symbol ≠ ')' := by
    cases op <;> decide
  have hsign : signAllowed (some op.symbol) = true := by
    cases op <;> decide
  rw [← hsign] at h
  refine .of_apart ⟨List.cons_ne_nil _ _, h'.ne_nil⟩
    ⟨h.balanced.cons hparen.1 hparen.2, h'.balanced⟩ (fun _ _ hright => hright.of_append) ?_
  intro span span' offset previous right waiting hprevious hright x y hfirst hsecond
  have hlast : signAllowed hole.getLast? = signAllowed hole'.getLast? := by
    rw [h.signAllowed_getLast?, h'.signAllowed_getLast?]
  rw [← hprevious] at h'
  have hcut := hright.cut h
  have hcut' := hright.cut h'
  rw [List.cons_append, Scanner.scan_operator fun _ => hprevious, Scanner.scan_number h hcut]
    at hfirst
  rw [Scanner.scan_number h' hcut'] at hsecond
  have hcounts := (Scanner.scan_alike hlast (offset + op.symbol.utf8Size + Text.bytes hole)
    (offset + Text.bytes hole') right).counts
  have haccount := (Frame.account_of_evaluateFrom hfirst).1
  have haccount' := (Frame.account_of_evaluateFrom hsecond).1
  simp only [Scan.after, List.cons_append, List.nil_append, operandCount, operatorCount,
    List.countP_cons, Token.isOperand, Token.isOperator, Bool.false_eq_true, if_true, if_false]
    at hcounts haccount haccount'
  omega

end Surd
