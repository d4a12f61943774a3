import Surd.Proofs.Evaluation.Accounting
import Surd.Proofs.Evaluation.Places
import Surd.Proofs.Token.Tiling

/-!
# Evaluation inside a group

What has a value on its own never looks at what stood on the stacks before it. So between
parentheses it leaves that value on any stacks, and nothing else (`Frame.feedAll_group`). Its own
parentheses match, so that the one that closes the group is the one that is meant to
(`Frame.balanced_of_evaluate`).
-/

namespace Surd

/-- Stacks on top of others, with an open group between them. -/
def Stacks.above (waiting : Stacks) (offset : Nat) (base : Stacks) : Stacks :=
  ⟨waiting.operands ++ base.operands, waiting.pending ++ (.group, offset) :: base.pending⟩

namespace Stacks

variable {operands : List Float} {pending : List (Pending × Nat)} (base : Stacks)

/-- An operator that has its operands does not touch those below them. -/
theorem apply_append {op : Operator} {offset : Nat} {result : List Float}
    (happly : apply op offset operands = .ok result) (below : List Float) :
    apply op offset (operands ++ below) = .ok (result ++ below) := by
  match operands with
  | [] | [_] => cases happly
  | right :: left :: rest =>
    simp only [apply, List.cons_append] at happly ⊢
    cases hvalue : op.value? left right with
    | none =>
      rw [hvalue] at happly
      cases happly
    | some value =>
      rw [hvalue] at happly
      cases happly
      rfl

/-- Reducing does not reach below an open group. -/
theorem reduce_above {precedence offset : Nat} {reduced : Stacks}
    (hreduce : reduce precedence pending operands = .ok reduced) :
    reduce precedence (pending ++ (.group, offset) :: base.pending) (operands ++ base.operands) =
      .ok (reduced.above offset base) := by
  induction pending generalizing operands with
  | nil =>
    cases hreduce
    rfl
  | cons entry pending ih =>
    obtain ⟨waiting, offset'⟩ := entry
    cases waiting with
    | group =>
      cases hreduce
      rfl
    | operator op =>
      rw [reduce] at hreduce
      rw [List.cons_append, reduce]
      split at hreduce
      next hlow =>
        cases hreduce
        rw [if_pos hlow]
        rfl
      next hhigh =>
        obtain ⟨result, happly, hrest⟩ := bind_eq_ok_iff.mp hreduce
        rw [if_neg hhigh, apply_append happly]
        exact ih hrest

/-- A group that is closed does not reach below an open one. -/
theorem closeGroup_above {close : Span} {offset : Nat} {closed : Stacks}
    (hclose : closeGroup close pending operands = .ok closed) :
    closeGroup close (pending ++ (.group, offset) :: base.pending) (operands ++ base.operands) =
      .ok (closed.above offset base) := by
  induction pending generalizing operands with
  | nil => cases hclose
  | cons entry pending ih =>
    obtain ⟨waiting, offset'⟩ := entry
    cases waiting with
    | group =>
      cases hclose
      rfl
    | operator op =>
      obtain ⟨result, happly, hrest⟩ := bind_eq_ok_iff.mp hclose
      rw [List.cons_append, closeGroup, apply_append happly]
      exact ih hrest

/-- Closing a group does what the end would do to the operators in it. -/
theorem closeGroup_of_finish {result : List Float} (close : Span) (offset : Nat)
    (hfinish : finish pending operands = .ok result) :
    closeGroup close (pending ++ (.group, offset) :: base.pending) (operands ++ base.operands) =
      .ok ⟨result ++ base.operands, base.pending⟩ := by
  induction pending generalizing operands with
  | nil =>
    cases hfinish
    rfl
  | cons entry pending ih =>
    obtain ⟨waiting, offset'⟩ := entry
    cases waiting with
    | group => cases hfinish
    | operator op =>
      obtain ⟨next, happly, hrest⟩ := bind_eq_ok_iff.mp hfinish
      rw [List.cons_append, closeGroup, apply_append happly]
      exact ih hrest

end Stacks

namespace Frame

variable {waiting next : Stacks} {token : Token} {tokens : List Token}

/-- A token that can be read does not look below an open group. -/
theorem feed_above (hfeed : feed evaluate waiting token = .ok next) (offset : Nat) (base : Stacks) :
    feed evaluate (waiting.above offset base) token = .ok (next.above offset base) := by
  cases reads_of_feed hfeed with
  | number hkind =>
    simp only [feed, hkind]
    rfl
  | root hkind hargument hvalue =>
    simp only [feed, hkind, hargument]
    change rootOf token _ >>= _ = _
    rw [rootOf, if_neg hvalue]
    rfl
  | leftParen hkind =>
    simp only [feed, hkind]
    rfl
  | rightParen hkind hclose =>
    simp only [feed, hkind]
    exact Stacks.closeGroup_above base hclose
  | operator hkind hreduce =>
    simp only [feed, hkind, Stacks.above, Stacks.reduce_above base hreduce]
    rfl

/-- Tokens that can be read do not look below an open group. -/
theorem feedAll_above (hfeed : feedAll tokens waiting = .ok next) (offset : Nat) (base : Stacks) :
    feedAll tokens (waiting.above offset base) = .ok (next.above offset base) := by
  induction tokens generalizing waiting with
  | nil =>
    cases hfeed
    rfl
  | cons token tokens ih =>
    rw [feedAll_cons, bind_eq_ok_iff] at hfeed
    obtain ⟨middle, hfirst, hrest⟩ := hfeed
    rw [feedAll_cons, feed_above hfirst]
    exact ih hrest

/-- A frame with a value leaves it on any stacks when it stands between parentheses. -/
theorem feedAll_group {frame : Frame} {value : Float} {opening closing : Token}
    (hvalue : frame.evaluate = .ok value) (hopening : opening.kind = .leftParen)
    (hclosing : closing.kind = .rightParen) (base : Stacks) :
    feedAll (opening :: frame.scan.tokens ++ [closing]) base =
      .ok (base.push value) := by
  rw [evaluate_eq_evaluateFrom, Scan.evaluateFrom_eq_ok_iff] at hvalue
  obtain ⟨-, last, hfeed, hfinish⟩ := hvalue
  have hopen : feed evaluate base opening = .ok (Stacks.empty.above opening.offset base) := by
    simp only [feed, hopening]
    rfl
  have hclose : feed evaluate (last.above opening.offset base) closing =
      .ok (base.push value) := by
    simp only [feed, hclosing]
    exact Stacks.closeGroup_of_finish base closing.span opening.offset hfinish
  rw [List.cons_append, feedAll_cons, hopen]
  change feedAll _ (Stacks.empty.above opening.offset base) = _
  rw [feedAll_append, feedAll_above hfeed]
  change feedAll _ (last.above opening.offset base) = _
  rw [feedAll_singleton, hclose]

end Frame

/-! ## Matching parentheses -/

/-- The parentheses in the spelling of a lexeme are those that its meaning says. -/
theorem Lexeme.depthAfter?_text (lexeme : Lexeme) (depth offset : Nat) (literal : Text) :
    Text.depthAfter? depth lexeme.text = tokenDepth? depth [⟨lexeme.kind, literal, offset⟩] := by
  cases lexeme with
  | leftParen => rw [text, Text.depthAfter?_open]; rfl
  | rightParen =>
    cases depth with
    | zero => rw [text, Text.depthAfter?_close_zero]; rfl
    | succ depth => rw [text, Text.depthAfter?_close]; rfl
  | operator op =>
    have hsymbol : op.symbol ≠ '(' ∧ op.symbol ≠ ')' := by
      cases op <;> decide
    rw [text, Text.depthAfter?_plain hsymbol.1 hsymbol.2]
    rfl
  | number literal => exact Text.depthAfter?_of_balanced literal.numberText.balanced depth
  | root body hbody =>
    rw [text, Token.rootOpening, List.append_assoc, List.cons_append,
      Text.depthAfter?_plain (by decide) (by decide), List.cons_append, Text.depthAfter?_open,
      List.nil_append, Text.depthAfter?_append, Text.depthAfter?_of_balanced hbody,
      Option.bind_some, Text.depthAfter?_close]
    rfl

/-- The parentheses in the literals of tokens are those that the tokens mean. -/
theorem Token.depthAfter?_join {tokens : List Token} (hspelled : ∀ token ∈ tokens, token.Spelled)
    (depth : Nat) : Text.depthAfter? depth (join tokens) = tokenDepth? depth tokens := by
  induction tokens generalizing depth with
  | nil => rfl
  | cons token tokens ih =>
    obtain ⟨lexeme, hkind, htext⟩ := hspelled token List.mem_cons_self
    rw [join_cons, Text.depthAfter?_append, tokenDepth?_cons, ← htext,
      lexeme.depthAfter?_text depth token.offset token.literal, hkind]
    congr 1
    funext inner
    exact ih (fun token hmem => hspelled token (List.mem_cons_of_mem _ hmem)) inner

/-- The parentheses of a text without faults are those of its tokens. -/
theorem Scanner.depthAfter?_text {offset : Nat} {previous : Option Char} {text : Text}
    (hsound : (scan ⟨offset, previous, text⟩).fault = none) (depth : Nat) :
    Text.depthAfter? depth text =
      tokenDepth? depth (scan ⟨offset, previous, text⟩).tokens := by
  have hdepth := Token.depthAfter?_join
    (fun token (hmem : token ∈ (scan ⟨offset, previous, text⟩).tokens) => spelled_of_mem hmem) depth
  rwa [join_tokens hsound] at hdepth

/-- The parentheses of a frame with a value match. -/
theorem Frame.balanced_of_evaluate {frame : Frame} {value : Float}
    (hvalue : frame.evaluate = .ok value) : Text.Balanced frame.text := by
  obtain ⟨hsound, -, hdepth⟩ := account_of_evaluate hvalue
  rw [Text.balanced_iff]
  exact (Scanner.depthAfter?_text hsound 0).trans hdepth

end Surd
