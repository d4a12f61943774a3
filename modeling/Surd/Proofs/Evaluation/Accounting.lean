import Mathlib.Data.List.Basic
import Surd.Proofs.Evaluation.Remainder

/-!
# What evaluation consumes

Each operand that is read goes onto the stack, and each operator takes two operands off and puts one
back. So while tokens are read without a fault, operands and operators keep their account
(`feedAll_operands`), and the groups that are open follow the parentheses (`feedAll_groups`). A
frame with a value has one operand more than it has operators, and its parentheses match.
-/

namespace Surd

/-- Whether a token puts an operand on the stack. -/
def Token.isOperand (token : Token) : Bool :=
  match token.kind with
  | .number _ | .root _ => true
  | _ => false

/-- Whether a token is a binary operator. -/
def Token.isOperator (token : Token) : Bool :=
  match token.kind with
  | .operator _ => true
  | _ => false

/-- The number of operands among tokens. -/
def operandCount (tokens : List Token) : Nat := tokens.countP Token.isOperand

/-- The number of operators among tokens. -/
def operatorCount (tokens : List Token) : Nat := tokens.countP Token.isOperator

/-- How many groups are open after tokens before which `depth` were, if none is closed that was not
opened. -/
def tokenDepth? (depth : Nat) : List Token → Option Nat
  | [] => some depth
  | token :: tokens =>
    match token.kind, depth with
    | .leftParen, depth => tokenDepth? (depth + 1) tokens
    | .rightParen, depth + 1 => tokenDepth? depth tokens
    | .rightParen, 0 => none
    | _, depth => tokenDepth? depth tokens

namespace Stacks

/-- The number of operators that wait. -/
def operators (pending : List (Pending × Nat)) : Nat := pending.countP fun entry => entry.1 ≠ .group

/-- The number of groups that are open. -/
def groups (pending : List (Pending × Nat)) : Nat := pending.countP fun entry => entry.1 = .group

variable {operands : List Float} {pending : List (Pending × Nat)}

/-- An operator counts among the operators that wait. -/
theorem operators_operator (op : Operator) (offset : Nat) :
    operators ((.operator op, offset) :: pending) = operators pending + 1 := by
  simp [operators]

/-- An open group is no operator. -/
theorem operators_group (offset : Nat) :
    operators ((.group, offset) :: pending) = operators pending := by
  simp [operators]

/-- An operator is no open group. -/
theorem groups_operator (op : Operator) (offset : Nat) :
    groups ((.operator op, offset) :: pending) = groups pending := by
  simp [groups]

/-- An open group counts among the groups that wait. -/
theorem groups_group (offset : Nat) :
    groups ((.group, offset) :: pending) = groups pending + 1 := by
  simp [groups]

/-- An operator that is applied takes two operands and leaves one. -/
theorem length_apply {op : Operator} {offset : Nat} {result : List Float}
    (happly : apply op offset operands = .ok result) : operands.length = result.length + 1 := by
  match operands with
  | [] | [_] => cases happly
  | right :: left :: rest =>
    rw [apply] at happly
    split at happly
    · cases happly
      simp
    · cases happly

/-- Operators that wait one above the other, with no group between them, each with its offset. -/
def operatorRun (run : List (Operator × Nat)) : List (Pending × Nat) :=
  run.map (Prod.map .operator id)

/-- Operators on top of a stack all count. -/
theorem operators_operatorRun (run : List (Operator × Nat)) (pending : List (Pending × Nat)) :
    operators (operatorRun run ++ pending) = run.length + operators pending := by
  induction run with
  | nil => exact (Nat.zero_add _).symm
  | cons entry run ih =>
    change operators ((.operator entry.1, entry.2) :: (operatorRun run ++ pending)) = _
    rw [operators_operator, ih, List.length_cons]
    omega

/-- Operators on top of a stack do not change the groups in it. -/
theorem groups_operatorRun (run : List (Operator × Nat)) (pending : List (Pending × Nat)) :
    groups (operatorRun run ++ pending) = groups pending := by
  induction run with
  | nil => rfl
  | cons entry run ih =>
    change groups ((.operator entry.1, entry.2) :: (operatorRun run ++ pending)) = _
    rw [groups_operator, ih]

/-- Reducing applies operators from above, each at the cost of an operand, until a group or an
operator that binds less tightly is the uppermost, or nothing waits. -/
theorem exists_run_of_reduce {precedence : Nat} {reduced : Stacks}
    (hreduce : reduce precedence pending operands = .ok reduced) :
    ∃ run, pending = operatorRun run ++ reduced.pending ∧
      operands.length = reduced.operands.length + run.length ∧
      ∀ entry ∈ reduced.pending.head?, ∀ op, entry.1 = .operator op →
        op.precedence < precedence := by
  induction pending generalizing operands with
  | nil =>
    cases hreduce
    exact ⟨[], rfl, rfl, fun entry hentry => by cases hentry⟩
  | cons entry pending ih =>
    obtain ⟨waiting, offset⟩ := entry
    cases waiting with
    | group =>
      cases hreduce
      refine ⟨[], rfl, rfl, fun entry hentry op hop => ?_⟩
      cases hentry
      cases hop
    | operator op =>
      rw [reduce] at hreduce
      split at hreduce
      next hlower =>
        cases hreduce
        refine ⟨[], rfl, rfl, fun entry hentry op hop => ?_⟩
        cases hentry
        cases hop
        exact hlower
      next =>
        obtain ⟨result, happly, hrest⟩ := bind_eq_ok_iff.mp hreduce
        obtain ⟨run, rfl, hlength, hhead⟩ := ih hrest
        refine ⟨(op, offset) :: run, rfl, ?_, hhead⟩
        rw [length_apply happly, hlength, List.length_cons, Nat.add_assoc]

/-- Closing a group applies the operators above it, each at the cost of an operand, and takes the
group off. -/
theorem exists_run_of_closeGroup {close : Span} {closed : Stacks}
    (hclose : closeGroup close pending operands = .ok closed) :
    ∃ run offset, pending = operatorRun run ++ (.group, offset) :: closed.pending ∧
      operands.length = closed.operands.length + run.length := by
  induction pending generalizing operands with
  | nil => cases hclose
  | cons entry pending ih =>
    obtain ⟨waiting, offset⟩ := entry
    cases waiting with
    | group =>
      cases hclose
      exact ⟨[], offset, rfl, rfl⟩
    | operator op =>
      obtain ⟨result, happly, hrest⟩ := bind_eq_ok_iff.mp hclose
      obtain ⟨run, place, rfl, hlength⟩ := ih hrest
      refine ⟨(op, offset) :: run, place, rfl, ?_⟩
      rw [length_apply happly, hlength, List.length_cons, Nat.add_assoc]

/-- Reducing takes an operand for each operator that it applies, and leaves the groups. -/
theorem reduce_account {precedence : Nat} {reduced : Stacks}
    (hreduce : reduce precedence pending operands = .ok reduced) :
    operands.length + operators reduced.pending = reduced.operands.length + operators pending ∧
      groups reduced.pending = groups pending := by
  obtain ⟨run, rfl, hlength, -⟩ := exists_run_of_reduce hreduce
  rw [operators_operatorRun, groups_operatorRun]
  exact ⟨by omega, rfl⟩

/-- Closing a group takes an operand for each operator that it applies, and ends one group. -/
theorem closeGroup_account {close : Span} {closed : Stacks}
    (hclose : closeGroup close pending operands = .ok closed) :
    operands.length + operators closed.pending = closed.operands.length + operators pending ∧
      groups pending = groups closed.pending + 1 := by
  obtain ⟨run, offset, rfl, hlength⟩ := exists_run_of_closeGroup hclose
  rw [operators_operatorRun, groups_operatorRun, operators_group, groups_group]
  exact ⟨by omega, rfl⟩

/-- At the end no group is open, and an operand is taken for each operator. -/
theorem finish_account {result : List Float} (hfinish : finish pending operands = .ok result) :
    operands.length = result.length + operators pending ∧ groups pending = 0 := by
  induction pending generalizing operands with
  | nil =>
    cases hfinish
    exact ⟨rfl, rfl⟩
  | cons entry pending ih =>
    obtain ⟨waiting, offset⟩ := entry
    cases waiting with
    | group => cases hfinish
    | operator op =>
      obtain ⟨next, happly, hrest⟩ := bind_eq_ok_iff.mp hfinish
      obtain ⟨hoperators, hgroups⟩ := ih hrest
      have hlength := length_apply happly
      rw [operators_operator, groups_operator]
      exact ⟨by omega, hgroups⟩

end Stacks

namespace Frame

open Stacks

variable {waiting next : Stacks} {token : Token} {tokens : List Token}

/-- A token that is read keeps the account of operands and operators. -/
theorem feed_operands (hfeed : feed evaluate waiting token = .ok next) :
    waiting.operands.length + operators next.pending + operandCount [token] =
      next.operands.length + operators waiting.pending + operatorCount [token] := by
  cases reads_of_feed hfeed with
  | number hkind =>
    simp [operandCount, operatorCount, Token.isOperand, Token.isOperator, hkind]
    omega
  | root hkind =>
    simp [operandCount, operatorCount, Token.isOperand, Token.isOperator, hkind]
    omega
  | leftParen hkind =>
    simp [operandCount, operatorCount, Token.isOperand, Token.isOperator, hkind, operators_group]
  | rightParen hkind hclose =>
    simp [operandCount, operatorCount, Token.isOperand, Token.isOperator, hkind,
      (closeGroup_account hclose).1]
  | operator hkind hreduce =>
    have haccount := (reduce_account hreduce).1
    simp [operandCount, operatorCount, Token.isOperand, Token.isOperator, hkind,
      operators_operator]
    omega

/-- Tokens that are read keep the account of operands and operators. -/
theorem feedAll_operands (hfeed : feedAll tokens waiting = .ok next) :
    waiting.operands.length + operators next.pending + operandCount tokens =
      next.operands.length + operators waiting.pending + operatorCount tokens := by
  induction tokens generalizing waiting with
  | nil =>
    cases hfeed
    rfl
  | cons token tokens ih =>
    rw [feedAll_cons, bind_eq_ok_iff] at hfeed
    obtain ⟨middle, hfirst, hrest⟩ := hfeed
    have hstep := feed_operands hfirst
    have hrun := ih hrest
    simp only [operandCount, operatorCount, List.countP_cons, List.countP_nil] at hstep hrun ⊢
    omega

/-- A token that is read opens or closes a group as its parenthesis says. -/
theorem feed_groups (hfeed : feed evaluate waiting token = .ok next) :
    tokenDepth? (groups waiting.pending) [token] = some (groups next.pending) := by
  cases reads_of_feed hfeed with
  | number hkind => simp [tokenDepth?, hkind]
  | root hkind => simp [tokenDepth?, hkind]
  | leftParen hkind => simp [tokenDepth?, hkind, groups_group]
  | rightParen hkind hclose => simp [tokenDepth?, hkind, (closeGroup_account hclose).2]
  | operator hkind hreduce =>
    simp [tokenDepth?, hkind, groups_operator, (reduce_account hreduce).2]

end Frame

/-- The depth after some tokens is the depth after the first one and those behind it. -/
theorem tokenDepth?_cons (depth : Nat) (token : Token) (tokens : List Token) :
    tokenDepth? depth (token :: tokens) =
      (tokenDepth? depth [token]).bind fun inner => tokenDepth? inner tokens := by
  cases hkind : token.kind with
  | rightParen => cases depth <;> simp [tokenDepth?, hkind]
  | _ => simp [tokenDepth?, hkind]

namespace Frame

open Stacks

variable {waiting next : Stacks} {tokens : List Token}

/-- Tokens that are read open and close groups as their parentheses say. -/
theorem feedAll_groups (hfeed : feedAll tokens waiting = .ok next) :
    tokenDepth? (groups waiting.pending) tokens = some (groups next.pending) := by
  induction tokens generalizing waiting with
  | nil =>
    cases hfeed
    rfl
  | cons token tokens ih =>
    rw [feedAll_cons, bind_eq_ok_iff] at hfeed
    obtain ⟨middle, hfirst, hrest⟩ := hfeed
    rw [tokenDepth?_cons, feed_groups hfirst, Option.bind_some, ih hrest]

/-- From stacks on which evaluation goes on to a value, operands and operators come out even but for
that value. -/
theorem account_of_evaluateFrom {scan : Scan} {span : Span} {value : Float}
    (hvalue : scan.evaluateFrom span waiting = .ok value) :
    waiting.operands.length + operandCount scan.tokens =
        operators waiting.pending + operatorCount scan.tokens + 1 ∧
      tokenDepth? (groups waiting.pending) scan.tokens = some 0 := by
  obtain ⟨-, last, hfeed, hfinish⟩ := Scan.evaluateFrom_eq_ok_iff.mp hvalue
  obtain ⟨hoperators, hgroups⟩ := finish_account hfinish
  have hoperands := feedAll_operands hfeed
  have hdepth := feedAll_groups hfeed
  rw [hgroups] at hdepth
  refine ⟨?_, hdepth⟩
  rw [List.length_singleton] at hoperators
  omega

/-- The tokens of a frame with a value: all of its text, one operand more than operators, and
parentheses that match. -/
theorem account_of_evaluate {frame : Frame} {value : Float} (hvalue : frame.evaluate = .ok value) :
    frame.scan.fault = none ∧
      operandCount frame.scan.tokens = operatorCount frame.scan.tokens + 1 ∧
      tokenDepth? 0 frame.scan.tokens = some 0 := by
  rw [evaluate_eq_evaluateFrom] at hvalue
  obtain ⟨hcount, hdepth⟩ := account_of_evaluateFrom hvalue
  refine ⟨(Scan.evaluateFrom_eq_ok_iff.mp hvalue).1, ?_, hdepth⟩
  simp only [Stacks.empty, operators, List.countP_nil, List.length_nil] at hcount
  omega

end Frame

end Surd
