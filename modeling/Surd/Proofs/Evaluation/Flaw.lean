import Surd.Proofs.Evaluation.Accounting
import Surd.Proofs.Evaluation.Frames

/-!
# What a fault says about a frame

A fault that a frame raises itself is the fault of its scan, or lies in one of its tokens, or in the
frame as a whole. `Frame.Flaw` lists these cases together with what each of them says about the
tokens of the frame, and `Frame.Raises.flaw` says that there are no others.
-/

namespace Surd

/-- An operator has a value unless it divides by zero. -/
theorem Operator.eq_div_of_value? {op : Operator} {left right : Float}
    (hnone : op.value? left right = none) : op = .div := by
  cases op with
  | div => rfl
  | add | sub | mul | pow => cases hnone

/-- The token that something on the stack of operators was read from. -/
def Pending.kind : Pending → Token.Kind
  | group => .leftParen
  | operator op => .operator op

namespace Stacks

variable {operands : List Float} {pending : List (Pending × Nat)} {fault : Fault}

/-! ## Why a step fails -/

/-- A fault in an operator that waits: too few operands, or zero as a divisor. -/
def FaultInOperator (pending : List (Pending × Nat)) (fault : Fault) : Prop :=
  ∃ op offset, (Pending.operator op, offset) ∈ pending ∧
    (fault = faultAt offset (.missingOperand op) ∨
      op = .div ∧ fault = faultAt offset .divisionByZero)

/-- A fault in an operator that waits stays one if more waits above it. -/
theorem FaultInOperator.cons {entry : Pending × Nat} (h : FaultInOperator pending fault) :
    FaultInOperator (entry :: pending) fault := by
  obtain ⟨op, offset, hmem, hfault⟩ := h
  exact ⟨op, offset, List.mem_cons_of_mem _ hmem, hfault⟩

/-- An operator that cannot be applied is at fault itself. -/
theorem faultInOperator_of_apply {op : Operator} {offset : Nat}
    (happly : apply op offset operands = .error fault) :
    FaultInOperator ((.operator op, offset) :: pending) fault := by
  refine ⟨op, offset, List.mem_cons_self, ?_⟩
  match operands with
  | [] | [_] =>
    cases happly
    exact .inl rfl
  | right :: left :: rest =>
    rw [apply] at happly
    split at happly
    · cases happly
    next hnone =>
      cases happly
      exact .inr ⟨Operator.eq_div_of_value? hnone, rfl⟩

/-- If room cannot be made for an operator, one that waits is at fault. -/
theorem faultInOperator_of_reduce {precedence : Nat}
    (hreduce : reduce precedence pending operands = .error fault) :
    FaultInOperator pending fault := by
  induction pending generalizing operands with
  | nil => cases hreduce
  | cons entry pending ih =>
    obtain ⟨waiting, offset⟩ := entry
    cases waiting with
    | group => cases hreduce
    | operator op =>
      rw [reduce] at hreduce
      split at hreduce
      · cases hreduce
      · rcases bind_eq_error_iff.mp hreduce with happly | ⟨result, -, hrest⟩
        · exact faultInOperator_of_apply happly
        · exact (ih hrest).cons

/-- A group cannot be closed if none is open, or because of an operator in it. -/
theorem fault_of_closeGroup {close : Span}
    (hclose : closeGroup close pending operands = .error fault) :
    FaultInOperator pending fault ∨ groups pending = 0 ∧ fault = ⟨.unmatchedClose, close⟩ := by
  induction pending generalizing operands with
  | nil =>
    cases hclose
    exact .inr ⟨rfl, rfl⟩
  | cons entry pending ih =>
    obtain ⟨waiting, offset⟩ := entry
    cases waiting with
    | group => cases hclose
    | operator op =>
      rcases bind_eq_error_iff.mp hclose with happly | ⟨result, -, hrest⟩
      · exact .inl (faultInOperator_of_apply happly)
      · rw [groups_operator]
        exact (ih hrest).imp_left FaultInOperator.cons

/-- The end cannot be reached if a group is open, or because of an operator. -/
theorem fault_of_finish (hfinish : finish pending operands = .error fault) :
    FaultInOperator pending fault ∨
      ∃ offset, (.group, offset) ∈ pending ∧ fault = faultAt offset .unclosedParen := by
  induction pending generalizing operands with
  | nil => cases hfinish
  | cons entry pending ih =>
    obtain ⟨waiting, offset⟩ := entry
    cases waiting with
    | group =>
      cases hfinish
      exact .inr ⟨offset, List.mem_cons_self, rfl⟩
    | operator op =>
      rcases bind_eq_error_iff.mp hfinish with happly | ⟨result, -, hrest⟩
      · exact .inl (faultInOperator_of_apply happly)
      · rcases ih hrest with hoperator | ⟨open', hmem, rfl⟩
        · exact .inl hoperator.cons
        · exact .inr ⟨open', List.mem_cons_of_mem _ hmem, rfl⟩

/-- No single value is left if there is none, or more than one. -/
theorem fault_of_single {span : Span} (hsingle : single span operands = .error fault) :
    operands = [] ∧ fault = ⟨.emptyExpression, span⟩ ∨
      2 ≤ operands.length ∧ fault = ⟨.missingOperator operands.length, span⟩ := by
  match operands with
  | [] =>
    cases hsingle
    exact .inl ⟨rfl, rfl⟩
  | [_] => cases hsingle
  | first :: second :: rest =>
    cases hsingle
    exact .inr ⟨by simp, rfl⟩

/-! ## What waits was read from a token -/

/-- What waits on the stacks was read from some of the tokens, and stands where these do. -/
def ReadFrom (tokens : List Token) (waiting : Stacks) : Prop :=
  ∀ entry ∈ waiting.pending, ∃ token ∈ tokens, token.kind = entry.1.kind ∧ token.offset = entry.2

/-- What waits on the stacks was read from some of the tokens, in their order. -/
def ReadInOrder (tokens : List Token) (waiting : Stacks) : Prop :=
  List.Sublist (waiting.pending.map (Prod.map Pending.kind id)).reverse
    (tokens.map fun token => (token.kind, token.offset))

namespace ReadInOrder

variable {tokens : List Token} {waiting next : Stacks}

/-- What was read in order was read from the tokens. -/
theorem readFrom (h : ReadInOrder tokens waiting) : ReadFrom tokens waiting := by
  intro entry hentry
  have hmem := h.mem (List.mem_reverse.mpr (List.mem_map_of_mem hentry))
  obtain ⟨token, htoken, hsame⟩ := List.mem_map.mp hmem
  obtain ⟨hkind, hoffset⟩ := Prod.mk.inj hsame
  exact ⟨token, htoken, hkind, hoffset⟩

/-- If entries are taken from the stack, what is left was read in order too. -/
theorem of_suffix (h : ReadInOrder tokens waiting) (hsuffix : next.pending <:+ waiting.pending) :
    ReadInOrder tokens next :=
  (hsuffix.map _).sublist.reverse.trans h

/-- What was read in order stays so if more tokens follow. -/
theorem append (h : ReadInOrder tokens waiting) (more : List Token) :
    ReadInOrder (tokens ++ more) waiting := by
  rw [ReadInOrder, List.map_append]
  exact h.trans (List.sublist_append_left ..)

/-- What is read from one more token lies above all that waited before. -/
theorem push (h : ReadInOrder tokens waiting) {token : Token} (entry : Pending)
    (hkind : token.kind = entry.kind)
    (hpending : next.pending = (entry, token.offset) :: waiting.pending) :
    ReadInOrder (tokens ++ [token]) next := by
  rw [ReadInOrder, hpending, List.map_cons, List.reverse_cons, List.map_append, List.map_singleton,
    hkind]
  exact List.Sublist.append h (List.Sublist.refl _)

end ReadInOrder

/-- Reducing only takes off what waits uppermost. -/
theorem suffix_of_reduce {precedence : Nat} {reduced : Stacks}
    (hreduce : reduce precedence pending operands = .ok reduced) : reduced.pending <:+ pending := by
  obtain ⟨run, rfl, -⟩ := exists_run_of_reduce hreduce
  exact List.suffix_append ..

/-- Closing a group only takes off what waits uppermost. -/
theorem suffix_of_closeGroup {close : Span} {closed : Stacks}
    (hclose : closeGroup close pending operands = .ok closed) : closed.pending <:+ pending := by
  obtain ⟨run, offset, rfl, -⟩ := exists_run_of_closeGroup hclose
  exact (List.suffix_cons ..).trans (List.suffix_append ..)

end Stacks

namespace Frame

open Stacks

variable {waiting next : Stacks} {token : Token} {tokens read : List Token}

/-- A token that is read is put above what waits, and before that it may take some of that off. -/
theorem readInOrder_of_feed (hread : ReadInOrder read waiting)
    (hfeed : feed evaluate waiting token = .ok next) : ReadInOrder (read ++ [token]) next := by
  cases reads_of_feed hfeed with
  | number | root => exact hread.append [token]
  | leftParen hkind => exact hread.push .group hkind rfl
  | rightParen hkind hclose => exact (hread.of_suffix (suffix_of_closeGroup hclose)).append [token]
  | operator hkind hreduce =>
    exact (hread.of_suffix (suffix_of_reduce hreduce)).push (.operator _) hkind rfl

/-- From empty stacks on, all that waits was read from a token, and lies in the order of the
tokens. -/
theorem readInOrder_of_feedAll_empty (hfeed : feedAll tokens .empty = .ok next) :
    ReadInOrder tokens next := by
  have hempty : ReadInOrder [] .empty := List.Sublist.refl []
  exact feedAll_induction (fun _ _ _ _ => readInOrder_of_feed) [] hempty hfeed

end Frame

/-! ## Operands do not run out -/

namespace Stacks

variable {operands : List Float} {pending : List (Pending × Nat)}

/-- An operator leaves an operand. -/
theorem ne_nil_of_apply {op : Operator} {offset : Nat} {result : List Float}
    (happly : apply op offset operands = .ok result) : result ≠ [] := by
  match operands with
  | [] | [_] => cases happly
  | right :: left :: rest =>
    rw [apply] at happly
    split at happly
    · cases happly
      exact List.cons_ne_nil _ _
    · cases happly

/-- Making room for an operator leaves an operand if there is one: an operator that takes two gives
one back. -/
theorem ne_nil_of_reduce {precedence : Nat} {reduced : Stacks}
    (hreduce : reduce precedence pending operands = .ok reduced) (hne : operands ≠ []) :
    reduced.operands ≠ [] := by
  induction pending generalizing operands with
  | nil =>
    cases hreduce
    exact hne
  | cons entry pending ih =>
    obtain ⟨waiting, offset⟩ := entry
    cases waiting with
    | group =>
      cases hreduce
      exact hne
    | operator op =>
      rw [reduce] at hreduce
      split at hreduce
      · cases hreduce
        exact hne
      · obtain ⟨result, happly, hrest⟩ := bind_eq_ok_iff.mp hreduce
        exact ih hrest (ne_nil_of_apply happly)

/-- Closing a group leaves an operand if there is one. -/
theorem ne_nil_of_closeGroup {close : Span} {closed : Stacks}
    (hclose : closeGroup close pending operands = .ok closed) (hne : operands ≠ []) :
    closed.operands ≠ [] := by
  induction pending generalizing operands with
  | nil => cases hclose
  | cons entry pending ih =>
    obtain ⟨waiting, offset⟩ := entry
    cases waiting with
    | group =>
      cases hclose
      exact hne
    | operator op =>
      obtain ⟨result, happly, hrest⟩ := bind_eq_ok_iff.mp hclose
      exact ih hrest (ne_nil_of_apply happly)

/-- Applying all that waits leaves an operand if there is one. -/
theorem ne_nil_of_finish {result : List Float} (hfinish : finish pending operands = .ok result)
    (hne : operands ≠ []) : result ≠ [] := by
  induction pending generalizing operands with
  | nil =>
    cases hfinish
    exact hne
  | cons entry pending ih =>
    obtain ⟨waiting, offset⟩ := entry
    cases waiting with
    | group => cases hfinish
    | operator op =>
      obtain ⟨next, happly, hrest⟩ := bind_eq_ok_iff.mp hfinish
      exact ih hrest (ne_nil_of_apply happly)

end Stacks

namespace Frame

open Stacks

variable {waiting next : Stacks} {token : Token} {tokens : List Token}

/-- Once there is an operand there is one after every token. -/
theorem ne_nil_of_feed (hfeed : feed evaluate waiting token = .ok next)
    (hne : waiting.operands ≠ [] ∨ token.isOperand = true) : next.operands ≠ [] := by
  cases reads_of_feed hfeed with
  | number | root => exact List.cons_ne_nil _ _
  | leftParen hkind => exact hne.resolve_right (by simp [Token.isOperand, hkind])
  | rightParen hkind hclose =>
    exact ne_nil_of_closeGroup hclose (hne.resolve_right (by simp [Token.isOperand, hkind]))
  | operator hkind hreduce =>
    have hold := hne.resolve_right (by simp [Token.isOperand, hkind])
    have hreduced := ne_nil_of_reduce hreduce hold
    exact hreduced

/-- Once an operand has been read there is always one on the stack. -/
theorem ne_nil_of_feedAll (hfeed : feedAll tokens waiting = .ok next)
    (hne : waiting.operands ≠ [] ∨ 0 < operandCount tokens) : next.operands ≠ [] := by
  induction tokens generalizing waiting with
  | nil =>
    cases hfeed
    exact hne.resolve_right (Nat.lt_irrefl 0)
  | cons token tokens ih =>
    rw [feedAll_cons, bind_eq_ok_iff] at hfeed
    obtain ⟨middle, hfirst, hrest⟩ := hfeed
    refine ih hrest ?_
    by_cases hoperand : token.isOperand = true
    · exact .inl (ne_nil_of_feed hfirst (.inr hoperand))
    · rw [operandCount, List.countP_cons_of_neg hoperand] at hne
      exact hne.imp_left fun hne => ne_nil_of_feed hfirst (.inl hne)

/-- The account of tokens that are read onto empty stacks. -/
theorem account_of_feedAll (hfeed : feedAll tokens .empty = .ok next) :
    operators next.pending + operandCount tokens = next.operands.length + operatorCount tokens ∧
      tokenDepth? 0 tokens = some (groups next.pending) := by
  have hoperands := feedAll_operands hfeed
  rw [empty, List.length_nil, Nat.zero_add] at hoperands
  exact ⟨hoperands, feedAll_groups hfeed⟩

/-! ## The flaws of a frame -/

/-- All faults that a frame can raise itself, with what each of them says about its tokens. -/
inductive Flaw (frame : Frame) : Fault → Prop
  | scan {fault : Fault} (hfault : frame.scan.fault = some fault) : Flaw frame fault
  | missingOperand {token : Token} {op : Operator} (hmem : token ∈ frame.scan.tokens)
    (hkind : token.kind = .operator op) : Flaw frame (faultAt token.offset (.missingOperand op))
  | divisionByZero {token : Token} (hmem : token ∈ frame.scan.tokens)
    (hkind : token.kind = .operator .div) : Flaw frame (faultAt token.offset .divisionByZero)
  | unmatchedClose {before after : List Token} {token : Token}
    (hsplit : frame.scan.tokens = before ++ token :: after) (hkind : token.kind = .rightParen)
    (hdepth : tokenDepth? 0 before = some 0) : Flaw frame ⟨.unmatchedClose, token.span⟩
  | unclosedParen {token : Token} {depth : Nat} (hmem : token ∈ frame.scan.tokens)
    (hkind : token.kind = .leftParen) (hsound : frame.scan.fault = none)
    (hdepth : tokenDepth? 0 frame.scan.tokens = some (depth + 1)) :
    Flaw frame (faultAt token.offset .unclosedParen)
  | negativeRoot {token : Token} {body : Text} {value : Float} (hmem : token ∈ frame.scan.tokens)
    (hkind : token.kind = .root body) (hvalue : (ofRoot token body).evaluate = .ok value)
    (hnegative : value < 0) : Flaw frame ⟨.negativeRoot value, token.span⟩
  | missingOperator {count : Nat} (hsound : frame.scan.fault = none)
    (hcount : operandCount frame.scan.tokens = operatorCount frame.scan.tokens + count)
    (hseveral : 2 ≤ count) : Flaw frame ⟨.missingOperator count, frame.span⟩
  | emptyExpression (hsound : frame.scan.fault = none)
    (hoperands : operandCount frame.scan.tokens = 0)
    (hoperators : operatorCount frame.scan.tokens = 0) : Flaw frame ⟨.emptyExpression, frame.span⟩

variable {frame : Frame} {fault : Fault}

/-- A fault in an operator that waits is one in a token of the frame. -/
theorem flaw_of_faultInOperator (hfault : FaultInOperator waiting.pending fault)
    (hread : ReadFrom tokens waiting) (hmem : ∀ token ∈ tokens, token ∈ frame.scan.tokens) :
    frame.Flaw fault := by
  obtain ⟨op, offset, hentry, hfault⟩ := hfault
  obtain ⟨token, htoken, hkind, rfl⟩ := hread _ hentry
  rcases hfault with rfl | ⟨rfl, rfl⟩
  · exact .missingOperand (hmem token htoken) hkind
  · exact .divisionByZero (hmem token htoken) hkind

/-- A fault that is raised at a token is a flaw of the frame. -/
theorem flaw_of_failsAt {before after : List Token}
    (hsplit : frame.scan.tokens = before ++ token :: after)
    (hbefore : feedAll before .empty = .ok waiting) (hfails : FailsAt waiting token fault) :
    frame.Flaw fault := by
  obtain ⟨hfeed, hargument⟩ := hfails
  have hread := (readInOrder_of_feedAll_empty hbefore).readFrom
  have hmem : ∀ first ∈ before, first ∈ frame.scan.tokens := fun first hfirst =>
    hsplit ▸ List.mem_append_left _ hfirst
  have hself : token ∈ frame.scan.tokens := hsplit ▸ List.mem_append_right _ List.mem_cons_self
  cases hkind : token.kind with
  | number value =>
    simp only [feed, hkind] at hfeed
    cases hfeed
  | leftParen =>
    simp only [feed, hkind] at hfeed
    cases hfeed
  | rightParen =>
    simp only [feed, hkind] at hfeed
    rcases fault_of_closeGroup hfeed with hoperator | ⟨hgroups, rfl⟩
    · exact flaw_of_faultInOperator hoperator hread hmem
    · have hdepth := (account_of_feedAll hbefore).2
      rw [hgroups] at hdepth
      exact .unmatchedClose hsplit hkind hdepth
  | operator op =>
    simp only [feed, hkind] at hfeed
    rcases bind_eq_error_iff.mp hfeed with hreduce | ⟨reduced, -, hnext⟩
    · exact flaw_of_faultInOperator (faultInOperator_of_reduce hreduce) hread hmem
    · cases hnext
  | root body =>
    obtain ⟨value, hvalue⟩ := hargument (ofRoot token body)
      (Token.argument?_eq_some_iff.mpr ⟨body, hkind, rfl⟩)
    simp only [feed, hkind, hvalue] at hfeed
    change rootOf token value >>= _ = _ at hfeed
    rcases bind_eq_error_iff.mp hfeed with hroot | ⟨root, -, hnext⟩
    · rw [rootOf] at hroot
      split at hroot
      next hnegative =>
        cases hroot
        exact .negativeRoot hself hkind hvalue hnegative
      next => cases hroot
    · cases hnext

/-- A fault that is raised at the end of a frame is a flaw of it. -/
theorem flaw_of_conclude (hfeed : feedAll frame.scan.tokens .empty = .ok waiting)
    (hsound : frame.scan.fault = none) (hconclude : waiting.conclude frame.span = .error fault) :
    frame.Flaw fault := by
  have hread := (readInOrder_of_feedAll_empty hfeed).readFrom
  obtain ⟨hcount, hdepth⟩ := account_of_feedAll hfeed
  rcases bind_eq_error_iff.mp hconclude with hfinish | ⟨result, hfinish, hsingle⟩
  · rcases fault_of_finish hfinish with hoperator | ⟨offset, hgroup, rfl⟩
    · exact flaw_of_faultInOperator hoperator hread fun _ => id
    · obtain ⟨token, hmem, hkind, rfl⟩ := hread _ hgroup
      have hpos : 0 < groups waiting.pending := List.countP_pos_iff.mpr ⟨_, hgroup, by simp⟩
      rw [← Nat.sub_add_cancel hpos] at hdepth
      exact .unclosedParen hmem hkind hsound hdepth
  · have hoperands := (finish_account hfinish).1
    rcases fault_of_single hsingle with ⟨rfl, rfl⟩ | ⟨hseveral, rfl⟩
    · -- an operand that was ever pushed would have left one at the end
      have hnone : operandCount frame.scan.tokens = 0 := by
        by_contra hsome
        have hne := ne_nil_of_feedAll hfeed (.inr (Nat.pos_of_ne_zero hsome))
        exact ne_nil_of_finish hfinish hne rfl
      rw [List.length_nil] at hoperands
      exact .emptyExpression hsound hnone (by omega)
    · exact .missingOperator hsound (by omega) hseveral

/-- A fault that a frame raises itself is one of its flaws. -/
theorem Raises.flaw (h : frame.Raises fault) : frame.Flaw fault := by
  cases h with
  | token hsplit hbefore hfails => exact flaw_of_failsAt hsplit hbefore hfails
  | scan _ hfault => exact .scan hfault
  | conclude hfeed hsound hconclude => exact flaw_of_conclude hfeed hsound hconclude

end Frame

end Surd
