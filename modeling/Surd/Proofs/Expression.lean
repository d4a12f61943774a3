import Surd.Expression
import Surd.Proofs.Literal
import Surd.Proofs.Normal
import Surd.Proofs.Evaluation.Remainder

/-!
# Evaluating what is written

An expression that is written down, with at least the parentheses that its tiers require, is
evaluated as its tree is. The text has the tokens of the tree in order (`Written.scan_text`), and
while they are read the stacks hold what stands to the left of the part that is being read, so that
the part comes to its value whenever something looks at it (`Written.feedAll_tokens_bind`).
-/

namespace Surd.Written

open Front

/-- The ways to spell what is written without blanks: each root with a root sign or with letters. -/
inductive Spells : Written → Text → Prop
  | number (literal : Literal) : Spells (number literal) literal.text
  | group {inner : Written} {text : Text} (hinner : Spells inner text) :
    Spells (group inner) ('(' :: text ++ [')'])
  | binary (op : Operator) {left right : Written} {leftText rightText : Text}
    (hleft : Spells left leftText) (hright : Spells right rightText) :
    Spells (binary op left right) (leftText ++ op.symbol :: rightText)
  | rootSign {argument : Written} {text : Text} (hargument : Spells argument text) :
    Spells (root argument) (['√', '('] ++ text ++ [')'])
  | rootLetters {argument : Written} {text : Text} (hargument : Spells argument text) :
    Spells (root argument) (['s', 'q', 'r', 't', '('] ++ text ++ [')'])

/-! ## The text of what is written -/

/-- All spellings have the same normal form. -/
theorem markRoots_of_spells {written : Written} {text : Text} (hspells : written.Spells text) :
    markRoots text = written.text := by
  have hclose {inner text : Text} (h : markRoots text = inner) :
      markRoots (text ++ [')']) = inner ++ [')'] := by
    rw [markRoots_append (.inr fun d hd => ?_), h]
    · rfl
    · cases hd
      decide
  induction hspells with
  | number literal =>
    refine markRoots_of_not_mem fun hs => ?_
    exact literal.numberText.ne_of_mem hs (by decide) (by decide) (by decide) rfl
  | group hinner ih =>
    rw [List.cons_append, markRoots_cons fun h => absurd h (by decide), hclose ih]
    rfl
  | binary op hleft hright ihleft ihright =>
    have hsymbol : op.symbol ≠ 's' ∧ op.symbol ∉ rootLetters := by
      cases op <;> decide
    rw [markRoots_append (.inr fun d hd => ?_), ihleft, markRoots_cons fun h => absurd h hsymbol.1,
      ihright]
    · rfl
    · cases hd
      exact hsymbol.2
  | rootSign hargument ih =>
    rw [List.append_assoc, List.cons_append, List.cons_append,
      markRoots_cons fun h => absurd h (by decide), List.nil_append,
      markRoots_cons fun h => absurd h (by decide), hclose ih]
    rfl
  | @rootLetters argument text hargument ih =>
    have hroot := markRoots_root (text ++ [')'])
    rw [hclose ih] at hroot
    exact hroot

/-- The parentheses of what is written match. -/
theorem balanced_text (written : Written) : Text.Balanced written.text := by
  have hgroup {depth : Nat} {text : Text} (h : Text.Balanced text) :
      Text.depthAfter? depth ('(' :: text ++ [')']) = some depth := by
    rw [List.cons_append, Text.depthAfter?_open, Text.depthAfter?_append,
      Text.depthAfter?_of_balanced h, Option.bind_some, Text.depthAfter?_close]
    rfl
  induction written with
  | number literal => exact literal.numberText.balanced
  | group inner ih =>
    rw [Text.balanced_iff]
    exact hgroup ih
  | binary op left right ihleft ihright =>
    have hsymbol : op.symbol ≠ '(' ∧ op.symbol ≠ ')' := by
      cases op <;> decide
    rw [Text.balanced_iff, text, Text.depthAfter?_append, Text.depthAfter?_of_balanced ihleft,
      Option.bind_some, Text.depthAfter?_plain hsymbol.1 hsymbol.2,
      Text.depthAfter?_of_balanced ihright]
  | root argument ih =>
    rw [Text.balanced_iff, text, List.cons_append,
      Text.depthAfter?_plain (by decide) (by decide)]
    exact hgroup ih

/-- After what is written, a minus sign is an operator. -/
theorem exists_getLast? (written : Written) :
    ∃ c, written.text.getLast? = some c ∧ signAllowed (some c) = false := by
  induction written with
  | number literal =>
    obtain ⟨c, hlast, -⟩ := literal.numberText.exists_getLast?
    have hsign := literal.numberText.signAllowed_getLast?
    exact ⟨c, hlast, hlast ▸ hsign⟩
  | group inner => exact ⟨')', List.getLast?_concat, by decide⟩
  | binary op left right ihleft ihright =>
    obtain ⟨c, hlast, hsign⟩ := ihright
    refine ⟨c, ?_, hsign⟩
    rw [text, List.getLast?_append, List.getLast?_cons, hlast]
    rfl
  | root argument =>
    refine ⟨')', ?_, by decide⟩
    exact List.getLast?_concat

/-! ## Its tokens -/

/-- The tokens of what is written at a byte offset. -/
def tokens (offset : Nat) : Written → List Token
  | number literal => [⟨.number literal.value, literal.text, offset⟩]
  | group inner =>
    ⟨.leftParen, ['('], offset⟩ :: inner.tokens (offset + 1) ++
      [⟨.rightParen, [')'], offset + 1 + Text.bytes inner.text⟩]
  | binary op left right =>
    left.tokens offset ++ ⟨.operator op, [op.symbol], offset + Text.bytes left.text⟩ ::
      right.tokens (offset + Text.bytes left.text + 1)
  | root argument => [⟨.root argument.text, (root argument).text, offset⟩]

/-- What is written is read as its tokens, whatever is cut from it behind it. -/
theorem scan_text_append (written : Written) {offset : Nat} {previous : Option Char} {rest : Text}
    (hsign : signAllowed previous = true) (hcut : Cut written.text rest) :
    Scanner.scan ⟨offset, previous, written.text ++ rest⟩ =
      .after (written.tokens offset)
        (Scanner.scan ⟨offset + Text.bytes written.text, written.text.getLast?, rest⟩) := by
  induction written generalizing offset previous rest with
  | number literal =>
    have hnumber := literal.numberText
    rw [← hsign] at hnumber
    exact Scanner.scan_number hnumber hcut
  | group inner ih =>
    have hclose : Cut inner.text (')' :: rest) := cut_cons (by decide) (by decide) (by decide)
    have hlast : (group inner).text.getLast? = some ')' := List.getLast?_concat
    have hbytes : Text.bytes (group inner).text = 1 + Text.bytes inner.text + 1 := by
      rw [text, Text.bytes_append]
      rfl
    have htext : (group inner).text ++ rest = '(' :: (inner.text ++ ')' :: rest) := by
      simp [text]
    rw [hlast, hbytes, htext, Scanner.scan_leftParen, ih (by decide) hclose,
      Scanner.scan_rightParen, Scan.after_after, Scan.after_after, tokens]
    simp only [Nat.add_assoc, List.cons_append, List.nil_append]
  | binary op left right ihleft ihright =>
    have hsymbol : isNumeric op.symbol = false ∧ op.symbol ≠ '(' ∧ op.symbol ≠ '%' ∧
        signAllowed (some op.symbol) = true := by
      cases op <;> decide
    have hleft : Cut left.text (op.symbol :: (right.text ++ rest)) :=
      cut_cons hsymbol.1 hsymbol.2.1 hsymbol.2.2.1
    have hright : Cut right.text rest := by
      rw [text, List.append_cons] at hcut
      exact hcut.of_append
    obtain ⟨c, hleftLast, hbinary⟩ := left.exists_getLast?
    obtain ⟨d, hrightLast, -⟩ := right.exists_getLast?
    have hlast : (binary op left right).text.getLast? = right.text.getLast? := by
      rw [text, List.getLast?_append, List.getLast?_cons, hrightLast]
      rfl
    have hbytes : Text.bytes (binary op left right).text =
        Text.bytes left.text + (1 + Text.bytes right.text) := by
      rw [text, Text.bytes_append, Text.bytes_cons, Operator.utf8Size_symbol]
    rw [hlast, hbytes, text, List.append_assoc, List.cons_append, ihleft hsign hleft, hleftLast,
      Scanner.scan_operator fun _ => hbinary, Operator.utf8Size_symbol,
      ihright hsymbol.2.2.2 hright, Scan.after_after, Scan.after_after, tokens]
    simp only [Nat.add_assoc, List.append_assoc, List.cons_append, List.nil_append]
  | root argument =>
    have hsplit : splitClose 0 (argument.text ++ ')' :: rest) = some (argument.text, rest) :=
      splitClose_eq_some_iff.mpr ⟨rfl, argument.balanced_text⟩
    have hlast : (root argument).text.getLast? = some ')' := List.getLast?_concat
    have htext : (root argument).text ++ rest =
        Token.rootOpening ++ (argument.text ++ ')' :: rest) := by
      simp [text, Token.rootOpening]
    rw [hlast, htext, Scanner.scan_root hsplit]
    rfl

/-- The text of what is written has its tokens and no fault. -/
theorem scan_text (written : Written) (offset : Nat) :
    Frame.scan ⟨offset, written.text⟩ = ⟨written.tokens offset, none⟩ := by
  have hscan := @scan_text_append written offset none [] rfl (cut_nil_right _)
  rw [List.append_nil, Scanner.scan_nil] at hscan
  change Scanner.scan ⟨offset, none, written.text⟩ = _
  rw [hscan, Scan.after, List.append_nil]

/-! ## Its value -/

/-- An operator that waits last is below a tier. -/
def Below (tier : Nat) (pending : List (Pending × Nat)) : Prop :=
  ∀ op offset below, pending = (.operator op, offset) :: below → Expression.tier op < tier

/-- What comes next applies a waiting operator of a tier, or of one above it, before it does
anything else. -/
def Applies {α : Type} (tier : Nat) (next : Stacks → Except Fault α) : Prop :=
  ∀ op offset operands pending, tier ≤ Expression.tier op →
    next ⟨operands, (.operator op, offset) :: pending⟩ =
      Stacks.apply op offset operands >>= fun operands => next ⟨operands, pending⟩

/-- What applies the operators of a tier applies those of the tiers above it. -/
theorem Applies.mono {α : Type} {low high : Nat} {next : Stacks → Except Fault α} (hle : low ≤ high)
    (h : Applies low next) : Applies high next :=
  fun op offset operands pending htier => h op offset operands pending (hle.trans htier)

/-- Waiting operators of the same tier or above are applied before an operator is pushed. -/
theorem applies_operator {α : Type} {token : Token} {op : Operator} (next : Stacks → Except Fault α)
    (hkind : token.kind = .operator op) : Applies (Expression.tier op) fun waiting =>
      Frame.feed Frame.evaluate waiting token >>= next := by
  intro op' offset operands pending htier
  have hprecedence : ¬ op'.precedence < op.precedence := by
    rw [← Expression.tier_lt_tier_iff]
    exact Nat.not_lt.mpr htier
  simp only [Frame.feed, hkind, Stacks.reduce, if_neg hprecedence, bind_assoc]

/-- All waiting operators of a group are applied before it is closed. -/
theorem applies_rightParen {α : Type} {token : Token} (next : Stacks → Except Fault α)
    (hkind : token.kind = .rightParen) :
    Applies 0 fun waiting => Frame.feed Frame.evaluate waiting token >>= next := by
  intro op offset operands pending _
  simp only [Frame.feed, hkind, Stacks.closeGroup, bind_assoc]

/-- All waiting operators are applied at the end. -/
theorem applies_conclude (span : Span) : Applies 0 (Stacks.conclude span) := by
  intro op offset operands pending _
  simp only [Stacks.conclude, Stacks.finish, bind_assoc]

/-- An operator is pushed onto one of a tier below. -/
theorem reduce_of_below {op : Operator} {pending : List (Pending × Nat)}
    (hbelow : Below (Expression.tier op) pending) (operands : List Float) :
    Stacks.reduce op.precedence pending operands = .ok ⟨operands, pending⟩ := by
  match pending with
  | [] | (.group, _) :: _ => rfl
  | (.operator op', offset) :: pending =>
    have hprecedence := Expression.tier_lt_tier_iff.mp (hbelow op' offset pending rfl)
    rw [Stacks.reduce, if_pos hprecedence]

/-- A frame has the value of what is written in it, if its tokens leave that value. -/
theorem evaluate_frame_of_tokens {written : Written} {offset : Nat}
    (htokens : ∀ span, Frame.feedAll (written.tokens offset) .empty >>= Stacks.conclude span =
      written.evaluate offset >>= fun value => Stacks.conclude span ⟨[value], []⟩) :
    (Frame.mk offset written.text).evaluate = written.evaluate offset := by
  rw [Frame.evaluate_eq_evaluateFrom, scan_text]
  change Frame.feedAll (written.tokens offset) .empty >>= Stacks.conclude _ = _
  rw [htokens]
  cases written.evaluate offset <;> rfl

/-- The tokens of what is written leave its value on the stack, as far as anything that comes next
can tell. -/
theorem feedAll_tokens_bind {α : Type} (written : Written) {offset : Nat} {operands : List Float}
    {pending : List (Pending × Nat)} {next : Stacks → Except Fault α} (hgrouped : written.Grouped)
    (hbelow : Below written.tier pending) (hnext : Applies written.tier next) :
    Frame.feedAll (written.tokens offset) ⟨operands, pending⟩ >>= next =
      written.evaluate offset >>= fun value => next ⟨value :: operands, pending⟩ := by
  induction written generalizing α offset operands pending with
  | number literal => rfl
  | group inner ih =>
    -- the parenthesis keeps what waits on the left of it from the tokens between
    have hopen : Below inner.tier ((.group, offset) :: pending) := by
      intro op offset' below h
      cases h
    have hclose := @applies_rightParen α ⟨.rightParen, [')'], offset + 1 + Text.bytes inner.text⟩
      next rfl
    have hinner := @ih _ (offset + 1) operands ((.group, offset) :: pending) _ hgrouped hopen
      (hclose.mono (Nat.zero_le _))
    rw [tokens, List.cons_append, Frame.feedAll_cons, bind_assoc]
    change Frame.feedAll _ ⟨operands, (.group, offset) :: pending⟩ >>= next = _
    simp only [Frame.feedAll_append, Frame.feedAll_singleton, bind_assoc]
    exact hinner
  | binary op left right ihleft ihright =>
    obtain ⟨hleft, hright, hleftGrouped, hrightGrouped⟩ := hgrouped
    have hoperator : Below right.tier
        ((.operator op, offset + Text.bytes left.text) :: pending) := by
      intro op' offset' below h
      cases h
      exact hright
    have hpush := @applies_operator α
      ⟨.operator op, [op.symbol], offset + Text.bytes left.text⟩ op
      (fun waiting => Frame.feedAll (right.tokens (offset + Text.bytes left.text + 1)) waiting >>=
        next) rfl
    have hbelowLeft : Below left.tier pending :=
      fun op' offset' below h => (hbelow op' offset' below h).trans_le hleft
    rw [tokens, Frame.feedAll_append, bind_assoc]
    simp only [Frame.feedAll_cons, bind_assoc]
    rw [ihleft hleftGrouped hbelowLeft (hpush.mono hleft), evaluate, bind_assoc]
    congr 1
    funext leftValue
    have hreduce : Stacks.reduce op.precedence pending (leftValue :: operands) =
        .ok ⟨leftValue :: operands, pending⟩ := reduce_of_below hbelow _
    simp only [Frame.feed, hreduce]
    change Frame.feedAll _ ⟨leftValue :: operands, (.operator op, _) :: pending⟩ >>= next = _
    rw [ihright hrightGrouped hoperator (hnext.mono hright.le), bind_assoc]
    congr 1
    funext rightValue
    have hfault : Stacks.faultAt (offset + Text.bytes left.text) .divisionByZero =
        ⟨.divisionByZero, .of (offset + Text.bytes left.text) [op.symbol]⟩ := by
      rw [Stacks.faultAt, Span.of, Text.bytes_cons, Operator.utf8Size_symbol]
      rfl
    rw [hnext op _ _ pending le_rfl, Stacks.apply, hfault, Expression.operate?_eq_value?]
    cases op.value? leftValue rightValue <;> rfl
  | root argument ih =>
    have hargument : (Frame.mk (offset + Text.bytes ['√', '(']) argument.text).evaluate =
        argument.evaluate (offset + Text.bytes ['√', '(']) := by
      refine evaluate_frame_of_tokens fun span => ?_
      refine ih hgrouped ?_ ((applies_conclude span).mono (Nat.zero_le _))
      intro op offset' below h
      cases h
    rw [tokens, Frame.feedAll_singleton, evaluate]
    simp only [Frame.feed, Frame.ofRoot, Token.rootOpening, hargument, bind_assoc]
    rfl

/-- A frame has the value of what is written in it. -/
theorem evaluate_frame {written : Written} (hgrouped : written.Grouped) (offset : Nat) :
    (Frame.mk offset written.text).evaluate = written.evaluate offset := by
  refine evaluate_frame_of_tokens fun span => ?_
  refine written.feedAll_tokens_bind hgrouped ?_ ((applies_conclude span).mono (Nat.zero_le _))
  intro op offset below h
  cases h

/-- What is written has no other fault than a division by zero or the root of a negative number. -/
theorem kind_of_evaluate {written : Written} {offset : Nat} {fault : Fault}
    (hfault : written.evaluate offset = .error fault) :
    fault.cause.kind = .divisionByZero ∨ fault.cause.kind = .negativeRoot := by
  induction written generalizing offset with
  | number literal => cases hfault
  | group inner ih => exact ih hfault
  | binary op left right ihleft ihright =>
    rw [evaluate, bind_eq_error_iff] at hfault
    rcases hfault with hfault | ⟨leftValue, -, hfault⟩
    · exact ihleft hfault
    rcases bind_eq_error_iff.mp hfault with hfault | ⟨rightValue, -, hfault⟩
    · exact ihright hfault
    split at hfault
    · cases hfault
    · cases hfault
      exact .inl rfl
  | root argument ih =>
    rw [evaluate, bind_eq_error_iff] at hfault
    rcases hfault with hfault | ⟨value, -, hfault⟩
    · exact ih hfault
    split at hfault
    · cases hfault
      exact .inr rfl
    · cases hfault

/-- A text that spells an expression, with blanks anywhere, has the value of its tree. Where the
tree has none, the fault is that of the first operation without a value, its left operand and its
right one coming before the operation itself. -/
theorem evaluate_of_spells {written : Written} {text : Text} (hgrouped : written.Grouped)
    (hspells : written.Spells (Text.squeeze text)) :
    normalize text = written.text ∧
      Surd.evaluate text = (written.evaluate 0).mapError (Fault.within written.text) ∧
      (Surd.evaluate text).toOption = written.expression.value? ∧
      ∀ diagnostic, Surd.evaluate text = .error diagnostic →
        diagnostic.cause.kind = .divisionByZero ∨ diagnostic.cause.kind = .negativeRoot := by
  have hnormal : normalize text = written.text := markRoots_of_spells hspells
  have hvalue : Surd.evaluate text = (written.evaluate 0).mapError (Fault.within written.text) := by
    rw [Surd.evaluate, evaluateNormal, hnormal, Frame.whole, evaluate_frame hgrouped]
  refine ⟨hnormal, hvalue, ?_, fun diagnostic hdiagnostic => ?_⟩
  · rw [hvalue, ← toOption_evaluate written 0]
    cases written.evaluate 0 <;> rfl
  · rw [hvalue] at hdiagnostic
    cases hfault : written.evaluate 0 with
    | ok value =>
      rw [hfault] at hdiagnostic
      cases hdiagnostic
    | error fault =>
      rw [hfault] at hdiagnostic
      cases hdiagnostic
      exact kind_of_evaluate hfault

/-- Without parentheses a product is formed before the sum that it stands in, and powers, which no
proof can compute, group to the left. Of two operations without a value the first one is marked, in
the normal form. -/
theorem evaluate_of_spells_ungrouped :
    Surd.evaluate "2+3*4".toList = .ok 14 ∧
      Surd.evaluate "2^3^2".toList = .ok ((2 ^ 3) ^ 2) ∧
      Surd.evaluate "8 - 1/sqrt( 0 ) - √(-4)".toList =
        .error ⟨⟨.divisionByZero, ⟨3, 4⟩⟩, "8-1/√(0)-√(-4)".toList⟩ := by
  let literal (negative : Bool) (digit : Fin 10) : Literal :=
    ⟨negative, [digit], none, false, List.cons_ne_nil _ _⟩
  have hspells (digit : Fin 10) :
      Spells (number (literal false digit)) [Nat.digitChar digit.val] := .number _
  refine ⟨?_, ?_, ?_⟩
  · have hgrouped : Grouped (binary .add (number (literal false 2))
        (binary .mul (number (literal false 3)) (number (literal false 4)))) :=
      ⟨by decide, by decide, trivial, by decide, by decide, trivial, trivial⟩
    have htext : Text.squeeze "2+3*4".toList = "2+3*4".toList := by decide
    have hsum := Spells.binary .add (hspells 2) (.binary .mul (hspells 3) (hspells 4))
    rw [(evaluate_of_spells hgrouped (htext ▸ hsum)).2.1]
    decide +kernel
  · have hgrouped : Grouped (binary .pow (binary .pow (number (literal false 2))
        (number (literal false 3))) (number (literal false 2))) :=
      ⟨by decide, by decide, ⟨by decide, by decide, trivial, trivial⟩, trivial⟩
    have htext : Text.squeeze "2^3^2".toList = "2^3^2".toList := by decide
    have hpower := Spells.binary .pow (.binary .pow (hspells 2) (hspells 3)) (hspells 2)
    have htwo : (literal false 2).value = 2 := by decide +kernel
    have hthree : (literal false 3).value = 3 := by decide +kernel
    have hzero : ((2 : Float) == 0) = false ∧ ((3 : Float) == 0) = false := by decide +kernel
    rw [(evaluate_of_spells hgrouped (htext ▸ hpower)).2.1]
    simp only [evaluate, htwo, hthree, Expression.operate?, hzero, Bool.false_eq_true, if_false,
      bind, Except.bind, Except.mapError]
  · have hgrouped : Grouped (binary .sub (binary .sub (number (literal false 8))
        (binary .div (number (literal false 1)) (root (number (literal false 0)))))
        (root (number (literal true 4)))) :=
      ⟨by decide, by decide, ⟨by decide, by decide, trivial, by decide, by decide, trivial,
        trivial⟩, trivial⟩
    have htext : Text.squeeze "8 - 1/sqrt( 0 ) - √(-4)".toList =
        ['8'] ++ Operator.sub.symbol :: (['1'] ++ Operator.div.symbol ::
          (['s', 'q', 'r', 't', '('] ++ ['0'] ++ [')'])) ++ Operator.sub.symbol ::
          (['√', '('] ++ (literal true 4).text ++ [')']) := by decide
    have hquotient := Spells.binary .div (hspells 1) (.rootLetters (hspells 0))
    have hdifference := Spells.binary .sub (.binary .sub (hspells 8) hquotient)
      (.rootSign (.number (literal true 4)))
    rw [(evaluate_of_spells hgrouped (htext ▸ hdifference)).2.1]
    decide +kernel

end Surd.Written
