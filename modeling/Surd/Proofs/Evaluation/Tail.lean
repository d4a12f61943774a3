import Surd.Proofs.Evaluation.Accounting
import Surd.Proofs.Evaluation.Places
import Surd.Proofs.Number.Zero
import Surd.Proofs.Token.Tiling

/-!
# Evaluating a text without numbers

A text without digits and points pushes no operand: it has no value on its own, and behind other
text it can only apply operators to what is on the stacks already. So two evaluations whose last
operands are related stay alike over such a text (`Scan.evaluateFrom_alike_of_plain`), and zeros of
different signs are related closely enough for that (`keptByCalculation_sameUpToZero`).
-/

namespace Surd

open Front

/-- Each token of a text is spelled as a lexeme whose characters are in the text. -/
theorem Scanner.exists_lexeme_of_mem {offset : Nat} {previous : Option Char} {text : Text}
    {token : Token} (hmem : token ∈ (scan ⟨offset, previous, text⟩).tokens) :
    ∃ lexeme : Lexeme, lexeme.kind = token.kind ∧ ∀ c ∈ lexeme.text, c ∈ text := by
  obtain ⟨lexeme, hkind, htext⟩ := spelled_of_mem hmem
  obtain ⟨left, right, rfl, -⟩ := exists_place hmem
  rw [← htext]
  exact ⟨lexeme, hkind, fun c hc => List.mem_append_left _ (List.mem_append_right _ hc)⟩

/-- A number among the tokens of a text has a digit or a point in the text. -/
theorem Lexeme.exists_isNumeric {lexeme : Lexeme} {value : Float}
    (hkind : lexeme.kind = .number value) : ∃ c ∈ lexeme.text, isNumeric c = true := by
  cases lexeme with
  | number literal =>
    obtain ⟨c, body, hbody⟩ := List.exists_cons_of_ne_nil literal.bodyText_ne_nil
    have hc : c ∈ literal.bodyText := by
      rw [hbody]
      exact List.mem_cons_self
    refine ⟨c, ?_, Literal.isNumeric_of_mem_bodyText hc⟩
    rw [text, ← literal.text_eq]
    exact List.mem_append_left _ (List.mem_append_right _ hc)
  | leftParen | rightParen | operator | root => cases hkind

/-- A text without digits and points has no value. -/
theorem Frame.evaluate_ne_ok_of_plain {offset : Nat} {text : Text} {value : Float}
    (hplain : ∀ c ∈ text, isNumeric c = false) : (mk offset text).evaluate ≠ .ok value := by
  induction hlength : text.length using Nat.strong_induction_on
    generalizing offset text value with
  | h length ih =>
    intro hvalue
    obtain ⟨-, hcount, -⟩ := account_of_evaluate hvalue
    obtain ⟨token, hmem, hoperand⟩ : ∃ token ∈ (mk offset text).scan.tokens,
        token.isOperand = true := by
      rw [← List.countP_pos_iff]
      exact Nat.lt_of_lt_of_eq (Nat.succ_pos _) hcount.symm
    obtain ⟨lexeme, hkind, htext⟩ := Scanner.exists_lexeme_of_mem hmem
    cases hlexeme : lexeme.kind with
    | number number =>
      obtain ⟨c, hc, hnumeric⟩ := lexeme.exists_isNumeric hlexeme
      rw [hplain c (htext c hc)] at hnumeric
      cases hnumeric
    | root body =>
      rw [hlexeme] at hkind
      rw [evaluate_eq_evaluateFrom, Scan.evaluateFrom_eq_ok_iff] at hvalue
      obtain ⟨-, last, hfeed, -⟩ := hvalue
      obtain ⟨argument, hargument⟩ := exists_evaluate_of_mem hfeed hmem hkind.symm
      have hshorter : body.length < text.length := Scan.length_body_lt _ hmem hkind.symm
      refine ih body.length (by omega) (fun c hc => hplain c (htext c ?_)) rfl hargument
      cases lexeme with
      | root body' hbody =>
        cases hlexeme
        exact List.mem_append_left _ (List.mem_append_right _ hc)
      | leftParen | rightParen | operator | number => cases hlexeme
    | leftParen | rightParen | operator => simp [Token.isOperand, ← hkind, hlexeme] at hoperand

variable {related : Float → Float → Prop}

/-- A root whose argument has no value fails in the same way on all stacks. -/
theorem Frame.feedAll_root_alike_of_plain {first second : Token} {body : Text} {α : Type}
    (hfirst : first.kind = .root body) (hsecond : second.kind = .root body)
    (hplain : ∀ c ∈ body, isNumeric c = false) (waiting waiting' : Stacks)
    (next next' : Stacks → Except Fault α) (same : α → α → Prop) :
    Alike same (feedAll [first] waiting >>= next) (feedAll [second] waiting' >>= next') := by
  have halike := evaluate_alike_of_text (ofRoot first body).offset (ofRoot second body).offset body
  have hfault (token : Token) : ∃ fault, (ofRoot token body).evaluate = .error fault := by
    cases hvalue : (ofRoot token body).evaluate with
    | ok value => exact absurd hvalue (evaluate_ne_ok_of_plain hplain)
    | error fault => exact ⟨fault, rfl⟩
  obtain ⟨fault, hargument⟩ := hfault first
  obtain ⟨fault', hargument'⟩ := hfault second
  change Alike Eq (ofRoot first body).evaluate (ofRoot second body).evaluate at halike
  rw [hargument, hargument'] at halike
  simp only [feedAll_singleton, feed, hfirst, hsecond, hargument, hargument']
  cases halike with
  | error hcause => exact .error hcause

/-- Over a text without digits and points two evaluations stay alike, whose last operands are
related. -/
theorem Scan.evaluateFrom_alike_of_plain (hkept : KeptByCalculation related) {text : Text}
    (hplain : ∀ c ∈ text, isNumeric c = false) (span span' : Span) (offset offset' : Nat)
    (previous : Option Char) {waiting waiting' : Stacks}
    (hwaiting : StacksAlike related waiting waiting') :
    Alike related ((Scanner.scan ⟨offset, previous, text⟩).evaluateFrom span waiting)
      ((Scanner.scan ⟨offset', previous, text⟩).evaluateFrom span' waiting') := by
  induction offset, previous, text using Scanner.scan_induction
    generalizing offset' waiting waiting' with
  | nil offset previous =>
    rw [Scanner.scan_nil, Scanner.scan_nil]
    exact Stacks.conclude_alike hkept span span' hwaiting
  | fault offset previous c text cause hread =>
    rw [Scanner.scan_of_error hread, Scanner.scan_of_error hread]
    exact .error rfl
  | token offset previous c text kind hread ih =>
    have hparts := literal_append_rest previous c text
    obtain ⟨lexeme, hkind, htext⟩ := exists_lexeme hread
    have hliteral : ∀ d ∈ lexeme.text, isNumeric d = false := by
      intro d hd
      rw [htext] at hd
      exact hplain d (hparts ▸ List.mem_append_left _ hd)
    have hrest : ∀ d ∈ (read previous c text).rest, isNumeric d = false :=
      fun d hd => hplain d (hparts ▸ List.mem_append_right _ hd)
    rw [Scanner.scan_of_ok hread, Scanner.scan_of_ok hread, evaluateFrom_after, evaluateFrom_after]
    cases kind with
    | number value =>
      obtain ⟨d, hd, hnumeric⟩ := Lexeme.exists_isNumeric hkind
      rw [hliteral d hd] at hnumeric
      cases hnumeric
    | root body =>
      have hbody : ∀ d ∈ body, isNumeric d = false := by
        cases lexeme with
        | root body' hbalanced =>
          cases hkind
          exact fun d hd => hliteral d (List.mem_append_left _ (List.mem_append_right _ hd))
        | leftParen | rightParen | operator | number => cases hkind
      exact Frame.feedAll_root_alike_of_plain rfl rfl hbody _ _ _ _ _
    | leftParen =>
      have hstep := @Frame.feedAll_alike_of_connective related waiting waiting'
        ⟨.leftParen, (read previous c text).literal, offset⟩
        ⟨.leftParen, (read previous c text).literal, offset'⟩ hkept rfl (.inl rfl) hwaiting
      exact hstep.bind fun _ _ hnext => ih hrest _ hnext
    | rightParen =>
      have hstep := @Frame.feedAll_alike_of_connective related waiting waiting'
        ⟨.rightParen, (read previous c text).literal, offset⟩
        ⟨.rightParen, (read previous c text).literal, offset'⟩ hkept rfl (.inr (.inl rfl)) hwaiting
      exact hstep.bind fun _ _ hnext => ih hrest _ hnext
    | operator op =>
      have hstep := @Frame.feedAll_alike_of_connective related waiting waiting'
        ⟨.operator op, (read previous c text).literal, offset⟩
        ⟨.operator op, (read previous c text).literal, offset'⟩ hkept rfl (.inr (.inr ⟨op, rfl⟩))
        hwaiting
      exact hstep.bind fun _ _ hnext => ih hrest _ hnext

/-- Operators and roots do not tell zeros of different signs apart, but for the sign of a zero. -/
theorem keptByCalculation_sameUpToZero : KeptByCalculation Binary64.SameUpToZero where
  value? op left a b h := by
    rcases h with rfl | ⟨ha, hb⟩
    · cases op.value? left a with
      | none => exact .none
      | some value => exact .some (.inl rfl)
    · have hzero := Binary64.beq_zero_iff.mpr ha
      have hzero' := Binary64.beq_zero_iff.mpr hb
      cases op with
      | add => exact .some (Binary64.add_isZero left ha hb)
      | sub => exact .some (Binary64.sub_isZero left ha hb)
      | mul => exact .some (Binary64.mul_isZero left ha hb)
      | div =>
        simp only [Operator.value?, hzero, hzero', if_true]
        exact .none
      | pow =>
        simp only [Operator.value?, hzero, hzero', if_true]
        exact .some (.inl rfl)
  rootOf token token' a b h := by
    rcases h with rfl | ⟨ha, hb⟩
    · unfold Frame.rootOf
      split
      · exact .error rfl
      · exact .ok (.inl rfl)
    · rw [Frame.rootOf, Frame.rootOf, if_neg (Binary64.not_lt_of_isZero ha),
        if_neg (Binary64.not_lt_of_isZero hb)]
      exact .ok (Binary64.sqrt_isZero ha hb)

end Surd
