import Surd.Grammar
import Surd.Proofs.Evaluation.Accounting

/-!
# What is accepted

Evaluation counts operands but does not look where they stand, so it takes an operand that is
missing in one place from another place where one is too many. `slip_account` states the balance
for any tokens, and `isCalculation_iff_of_evaluate` what it leaves of the grammar: in a text with a
value, values that stand next to each other are as many as values that are missing, in every
frame, and the text is a calculation exactly if there are none of them.
-/

namespace Surd

/-- Whether a value may begin with a token. -/
def Token.startsValue (token : Token) : Bool :=
  match token.kind with
  | .number _ | .root _ | .leftParen => true
  | .rightParen | .operator _ => false

/-- Whether a value may end with a token. -/
def Token.endsValue (token : Token) : Bool :=
  match token.kind with
  | .number _ | .root _ | .rightParen => true
  | .leftParen | .operator _ => false

/-- How often a value follows a value without an operator between them; `afterValue` says whether a
value stands before the tokens. -/
def juxtapositions (afterValue : Bool) : List Token → Nat
  | [] => 0
  | token :: tokens =>
    (if afterValue && token.startsValue then 1 else 0) + juxtapositions token.endsValue tokens

/-- How often a value is missing: in an empty group, before an operator or a closing parenthesis,
and at the end; `afterValue` says whether a value stands before the tokens. -/
def gaps (afterValue : Bool) : List Token → Nat
  | [] => if afterValue then 0 else 1
  | token :: tokens =>
    (if !afterValue && !token.startsValue then 1 else 0) + gaps token.endsValue tokens

/-- Operands and missing values balance operators and values that are one too many. -/
theorem slip_account (afterValue : Bool) (tokens : List Token) :
    operandCount tokens + gaps afterValue tokens + (if afterValue then 1 else 0) =
      operatorCount tokens + juxtapositions afterValue tokens + 1 := by
  induction tokens generalizing afterValue with
  | nil => cases afterValue <;> rfl
  | cons token tokens ih =>
    have hrest := ih token.endsValue
    simp only [operandCount, operatorCount, List.countP_cons, gaps, juxtapositions] at hrest ⊢
    cases hkind : token.kind <;> cases afterValue <;>
      simp [Token.isOperand, Token.isOperator, Token.startsValue, Token.endsValue, hkind] at hrest ⊢
        <;> omega

/-! ## Calculations have no slips -/

/-- A calculation is a single value to what stands around it. -/
theorem juxtapositions_append {tokens : List Token} (h : IsCalculation tokens) (afterValue : Bool)
    (rest : List Token) :
    juxtapositions afterValue (tokens ++ rest) =
      (if afterValue then 1 else 0) + juxtapositions true rest := by
  induction h generalizing afterValue rest with
  | number hkind => simp [juxtapositions, Token.startsValue, Token.endsValue, hkind]
  | root hkind => simp [juxtapositions, Token.startsValue, Token.endsValue, hkind]
  | @group opening closing tokens hopening hclosing _ ih =>
    have hinner := ih false (closing :: rest)
    simp only [juxtapositions, Token.startsValue, Token.endsValue, hclosing] at hinner
    simp only [List.append_assoc, List.cons_append, List.nil_append, juxtapositions,
      Token.startsValue, Token.endsValue, hopening, hinner]
    cases afterValue <;> simp
  | @binary left right token op hkind _ _ ihleft ihright =>
    have hright := ihright false rest
    have hleft := ihleft afterValue (token :: (right ++ rest))
    simp only [juxtapositions, Token.startsValue, Token.endsValue, hkind, hright] at hleft
    rw [List.append_assoc, List.cons_append, hleft]
    cases afterValue <;> simp

/-! ## Tokens without slips are calculations -/

/-- Tokens without a slip whose parentheses match from a depth on, and with roots of calculations
only. -/
structure Regular (afterValue : Bool) (depth : Nat) (tokens : List Token) : Prop where
  no_juxtaposition : juxtapositions afterValue tokens = 0
  no_gap : gaps afterValue tokens = 0
  depth : tokenDepth? depth tokens = some 0
  roots : ∀ token ∈ tokens, ∀ body, token.kind = .root body → IsCalculation [token]

/-- What can stand after a calculation that goes as far as it can: nothing, or the parenthesis that
closes its group. -/
inductive Ends : Nat → List Token → Prop
  | nil : Ends 0 []
  | close {depth : Nat} {closing : Token} {rest : List Token} (hkind : closing.kind = .rightParen)
    (hrest : Regular true depth rest) : Ends (depth + 1) (closing :: rest)

namespace Regular

variable {afterValue : Bool} {depth : Nat} {token : Token} {tokens : List Token}

/-- Where a value stands before, no value begins, and where none does, one begins. -/
theorem startsValue_eq (h : Regular afterValue depth (token :: tokens)) :
    token.startsValue = !afterValue := by
  have hjuxtaposition := h.no_juxtaposition
  have hgap := h.no_gap
  rw [juxtapositions] at hjuxtaposition
  rw [gaps] at hgap
  cases afterValue <;> cases hstarts : token.startsValue <;> simp_all

/-- What follows the first token is regular at the depth behind it. -/
theorem tail (h : Regular afterValue depth (token :: tokens)) :
    ∃ inner, tokenDepth? depth [token] = some inner ∧ Regular token.endsValue inner tokens := by
  have hdepth := h.depth
  rw [tokenDepth?_cons, Option.bind_eq_some_iff] at hdepth
  obtain ⟨inner, hfirst, hrest⟩ := hdepth
  have hjuxtaposition := h.no_juxtaposition
  have hgap := h.no_gap
  rw [juxtapositions] at hjuxtaposition
  rw [gaps] at hgap
  exact ⟨inner, hfirst, by omega, by omega, hrest,
    fun token hmem => h.roots token (List.mem_cons_of_mem _ hmem)⟩

end Regular

/-- Tokens behind `left` go on with a calculation that goes as far as it can, and that `left` is the
front of. -/
def GoesOn (depth : Nat) (left tokens : List Token) : Prop :=
  ∃ calculation rest, left ++ tokens = calculation ++ rest ∧ IsCalculation calculation ∧
    Ends depth rest

namespace GoesOn

variable {depth : Nat} {token : Token} {left tokens : List Token}

/-- A token that is read goes in front. -/
theorem of_append (h : GoesOn depth (left ++ [token]) tokens) :
    GoesOn depth left (token :: tokens) := by
  rwa [GoesOn, List.append_cons]

/-- Behind an operator there is a calculation of its own. -/
theorem binary {op : Operator} (hkind : token.kind = .operator op) (hleft : IsCalculation left)
    (h : GoesOn depth [] tokens) : GoesOn depth left (token :: tokens) := by
  obtain ⟨calculation, rest, hsame, hcalculation, hends⟩ := h
  rw [List.nil_append] at hsame
  refine ⟨left ++ token :: calculation, rest, ?_, .binary hkind hleft hcalculation, hends⟩
  rw [hsame]
  simp

/-- The calculation in a group ends where the group does, and the group goes on like any value. -/
theorem group (hkind : token.kind = .leftParen) (h : GoesOn (depth + 1) [] tokens)
    (hvalue : ∀ left rest, rest.length < tokens.length → IsCalculation left →
      Regular true depth rest → GoesOn depth left rest) : GoesOn depth [] (token :: tokens) := by
  obtain ⟨inner, rest, hsame, hinner, hends⟩ := h
  rw [List.nil_append] at hsame
  cases hends with
  | @close _ closing rest hclosing hrest =>
    have hlength := congrArg List.length hsame
    rw [List.length_append, List.length_cons] at hlength
    obtain ⟨calculation, rest', hsame', hcalculation, hends'⟩ := hvalue _ rest (by omega)
      (.group hkind hclosing hinner) hrest
    refine ⟨calculation, rest', ?_, hcalculation, hends'⟩
    rw [← hsame', hsame]
    simp

end GoesOn

namespace Regular

variable {afterValue : Bool} {depth : Nat} {tokens : List Token}

/-- Regular tokens go on with a calculation up to the end of their group, whether they begin with
it or a calculation stands before them. -/
theorem goesOn (h : Regular afterValue depth tokens) (left : List Token)
    (hleft : if afterValue then IsCalculation left else left = []) : GoesOn depth left tokens := by
  induction hlength : tokens.length using Nat.strong_induction_on
    generalizing afterValue depth tokens left with
  | h length ih =>
    cases tokens with
    | nil =>
      have hdepth := h.depth
      have hgap := h.no_gap
      cases afterValue with
      | false => cases hgap
      | true =>
        cases hdepth
        exact ⟨left, [], rfl, hleft, .nil⟩
    | cons token tokens =>
      have hafter : afterValue = !token.startsValue := by rw [h.startsValue_eq, Bool.not_not]
      obtain ⟨inner, hdepth, htail⟩ := h.tail
      rw [List.length_cons] at hlength
      cases hkind : token.kind with
      | number value =>
        simp only [Token.startsValue, Token.endsValue, hkind, Bool.not_true] at hafter htail
        simp only [tokenDepth?, hkind, Option.some.injEq] at hdepth
        subst hafter hleft hdepth
        exact .of_append (ih tokens.length (by omega) htail [token] (.number hkind) rfl)
      | root body =>
        have hroot := h.roots token List.mem_cons_self body hkind
        simp only [Token.startsValue, Token.endsValue, hkind, Bool.not_true] at hafter htail
        simp only [tokenDepth?, hkind, Option.some.injEq] at hdepth
        subst hafter hleft hdepth
        exact .of_append (ih tokens.length (by omega) htail [token] hroot rfl)
      | leftParen =>
        simp only [Token.startsValue, Token.endsValue, hkind, Bool.not_true] at hafter htail
        simp only [tokenDepth?, hkind, Option.some.injEq] at hdepth
        subst hafter hleft hdepth
        refine .group hkind (ih tokens.length (by omega) htail [] rfl rfl) ?_
        intro left rest hshorter hcalculation hrest
        exact ih rest.length (by omega) hrest left hcalculation rfl
      | rightParen =>
        simp only [Token.startsValue, Token.endsValue, hkind, Bool.not_false] at hafter htail
        subst hafter
        cases depth with
        | zero => simp [tokenDepth?, hkind] at hdepth
        | succ depth =>
          simp only [tokenDepth?, hkind, Option.some.injEq] at hdepth
          subst hdepth
          exact ⟨left, token :: tokens, rfl, hleft, .close hkind htail⟩
      | operator op =>
        simp only [Token.startsValue, Token.endsValue, hkind, Bool.not_false] at hafter htail
        simp only [tokenDepth?, hkind, Option.some.injEq] at hdepth
        subst hafter hdepth
        exact .binary hkind hleft (ih tokens.length (by omega) htail [] rfl rfl)

/-- Regular tokens outside of all groups are a calculation. -/
theorem isCalculation (h : Regular false 0 tokens) : IsCalculation tokens := by
  obtain ⟨calculation, rest, hsame, hcalculation, hends⟩ := h.goesOn [] rfl
  cases hends
  rw [List.nil_append, List.append_nil] at hsame
  rwa [hsame]

end Regular

/-! ## Frames in frames -/

/-- Something holds of the scan of a frame, and of those of the arguments of all roots in it, the
roots in these included. -/
inductive Scan.Everywhere (holds : Scan → Prop) : Scan → Prop
  | intro {scan : Scan} (here : holds scan)
    (inside : ∀ token ∈ scan.tokens, ∀ body, token.kind = .root body →
      Everywhere holds (Frame.ofRoot token body).scan) : Everywhere holds scan

/-- What holds everywhere holds of the frame itself. -/
theorem Scan.Everywhere.self {holds : Scan → Prop} {scan : Scan} (h : scan.Everywhere holds) :
    holds scan := by
  cases h with
  | intro here _ => exact here

/-- What follows from something that holds everywhere holds everywhere. -/
theorem Scan.Everywhere.imp {holds holds' : Scan → Prop} {scan : Scan}
    (himp : ∀ scan, holds scan → holds' scan) (h : scan.Everywhere holds) :
    scan.Everywhere holds' := by
  induction h with
  | intro here _ ih => exact .intro (himp _ here) ih

/-- In a calculation no values stand next to each other. -/
theorem juxtapositions_eq_zero {tokens : List Token} (h : IsCalculation tokens) :
    juxtapositions false tokens = 0 := by
  have happend := juxtapositions_append h false []
  rw [List.append_nil] at happend
  exact happend

/-- In the roots of a calculation no values stand next to each other. -/
theorem everywhere_of_mem_isCalculation {tokens : List Token} (h : IsCalculation tokens) :
    ∀ token ∈ tokens, ∀ body, token.kind = .root body →
      (Frame.ofRoot token body).scan.Everywhere
        fun scan => juxtapositions false scan.tokens = 0 := by
  induction h with
  | number hnumber =>
    intro token hmem body hkind
    rw [List.mem_singleton.mp hmem, hnumber] at hkind
    cases hkind
  | root hroot hscan _ hargument ih =>
    intro token hmem body hkind
    rw [List.mem_singleton.mp hmem] at hkind ⊢
    rw [hroot] at hkind
    cases hkind
    rw [hscan] at ih hargument
    exact .intro (juxtapositions_eq_zero hargument) ih
  | group hopening hclosing _ ih =>
    intro token hmem body hkind
    simp only [List.cons_append, List.mem_cons, List.mem_append, List.not_mem_nil, or_false] at hmem
    rcases hmem with rfl | hmem | rfl
    · rw [hopening] at hkind
      cases hkind
    · exact ih token hmem body hkind
    · rw [hclosing] at hkind
      cases hkind
  | binary hoperator _ _ ihleft ihright =>
    intro token hmem body hkind
    simp only [List.mem_append, List.mem_cons] at hmem
    rcases hmem with hmem | rfl | hmem
    · exact ihleft token hmem body hkind
    · rw [hoperator] at hkind
      cases hkind
    · exact ihright token hmem body hkind

/-- In a frame with a value, and in the frames in it, all of the text is read, and values are
missing as often as values stand next to each other. -/
theorem Frame.everywhere_of_evaluate {frame : Frame} {value : Float}
    (hvalue : frame.evaluate = .ok value) :
    frame.scan.Everywhere fun scan => scan.fault = none ∧ tokenDepth? 0 scan.tokens = some 0 ∧
      gaps false scan.tokens = juxtapositions false scan.tokens := by
  induction hlength : frame.text.length using Nat.strong_induction_on generalizing frame value with
  | h length ih =>
    obtain ⟨hsound, hcount, hdepth⟩ := account_of_evaluate hvalue
    have hslips := slip_account false frame.scan.tokens
    refine .intro ⟨hsound, hdepth, ?_⟩ fun token hmem body hkind => ?_
    · simp only [Bool.false_eq_true, if_false] at hslips
      omega
    · rw [evaluate_eq_evaluateFrom, Scan.evaluateFrom_eq_ok_iff] at hvalue
      obtain ⟨-, last, hfeed, -⟩ := hvalue
      obtain ⟨argument, hargument⟩ := exists_evaluate_of_mem hfeed hmem hkind
      have hshorter := Scan.length_body_lt _ hmem hkind
      exact ih body.length (hlength ▸ hshorter) hargument rfl

/-- Where values are missing as often as they stand next to each other, and they never do, there is
a calculation. -/
theorem isCalculation_of_everywhere {scan : Scan}
    (haccount : scan.Everywhere fun scan => scan.fault = none ∧
      tokenDepth? 0 scan.tokens = some 0 ∧
      gaps false scan.tokens = juxtapositions false scan.tokens)
    (hnone : scan.Everywhere fun scan => juxtapositions false scan.tokens = 0) :
    IsCalculation scan.tokens := by
  induction haccount with
  | intro haccount hinside ih =>
    cases hnone with
    | intro hnone hnoneInside =>
      obtain ⟨-, hdepth, hgaps⟩ := haccount
      refine Regular.isCalculation ⟨hnone, by omega, hdepth, fun token hmem body hkind => ?_⟩
      have hargument := ih token hmem body hkind (hnoneInside token hmem body hkind)
      exact .root hkind rfl (hinside token hmem body hkind).self.1 hargument

/-- In a text with a value all tokens of all frames are read, and values are missing as often as
values stand next to each other. The text is a calculation exactly if the latter happens nowhere. -/
theorem isCalculation_iff_of_evaluate {text : Text} {value : Float}
    (hvalue : evaluate text = .ok value) :
    (Frame.whole (normalize text)).scan.Everywhere (fun scan => scan.fault = none ∧
      gaps false scan.tokens = juxtapositions false scan.tokens) ∧
    (IsCalculation (Frame.whole (normalize text)).scan.tokens ↔
      (Frame.whole (normalize text)).scan.Everywhere
        fun scan => juxtapositions false scan.tokens = 0) := by
  have haccount := Frame.everywhere_of_evaluate (evaluate_eq_ok_iff.mp hvalue)
  refine ⟨haccount.imp fun scan h => ⟨h.1, h.2.2⟩, fun h => ?_, fun h => ?_⟩
  · exact .intro (juxtapositions_eq_zero h) (everywhere_of_mem_isCalculation h)
  · exact isCalculation_of_everywhere haccount h

/-- A product in parentheses is a calculation because no values stand next to each other in it. -/
theorem isCalculation_product :
    IsCalculation (Frame.whole (normalize "2 * (1 + 3)".toList)).scan.tokens := by
  have hvalue : evaluate "2 * (1 + 3)".toList = .ok 8 := by decide +kernel
  have hroots : ∀ token ∈ (Frame.whole (normalize "2 * (1 + 3)".toList)).scan.tokens,
      token.bodySpan? = none := by decide +kernel
  refine (isCalculation_iff_of_evaluate hvalue).2.mpr (.intro (by decide +kernel) ?_)
  intro token hmem body hkind
  have hspan := hroots token hmem
  rw [Token.bodySpan?, hkind] at hspan
  cases hspan

/-- A value that is missing is taken from in front of the parenthesis: this text has a value, but is
no calculation. -/
theorem evaluate_of_gap : evaluate "1(+2)".toList = .ok 3 ∧
    ¬ IsCalculation (Frame.whole (normalize "1(+2)".toList)).scan.tokens := by
  refine ⟨by decide +kernel, fun h => ?_⟩
  have hnone := juxtapositions_eq_zero h
  have hone : juxtapositions false (Frame.whole (normalize "1(+2)".toList)).scan.tokens = 1 := by
    decide +kernel
  omega

end Surd
