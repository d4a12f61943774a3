import Surd.Proofs.Evaluation.Flaw
import Surd.Proofs.Token.Tiling

/-!
# The groups that are open

A group waits on the stack of operators from its opening parenthesis to its closing one. So the
groups that wait are the parentheses that the tokens read so far open and do not close, in the order
of the text (`Frame.leavesOpen_of_feedAll_empty`). A frame that ends with a group open fails in the
last one of them (`Frame.Raises.unclosedParen`).
-/

namespace Surd

/-! ## The parentheses among tokens -/

/-- The depth behind two sequences of tokens is found one after the other. -/
theorem tokenDepth?_append (depth : Nat) (first second : List Token) :
    tokenDepth? depth (first ++ second) =
      (tokenDepth? depth first).bind fun inner => tokenDepth? inner second := by
  induction first generalizing depth with
  | nil => rfl
  | cons token first ih =>
    rw [List.cons_append, tokenDepth?_cons, tokenDepth?_cons depth token first, Option.bind_assoc]
    simp only [ih]

/-- More groups that are open before tokens are open behind them too. -/
theorem tokenDepth?_add {depth inner : Nat} {tokens : List Token}
    (hdepth : tokenDepth? depth tokens = some inner) (more : Nat) :
    tokenDepth? (depth + more) tokens = some (inner + more) := by
  induction tokens generalizing depth with
  | nil =>
    cases hdepth
    rfl
  | cons token tokens ih =>
    cases hkind : token.kind with
    | leftParen =>
      simp only [tokenDepth?, hkind] at hdepth ⊢
      rw [Nat.add_right_comm]
      exact ih hdepth
    | rightParen =>
      cases depth with
      | zero => simp only [tokenDepth?, hkind, reduceCtorEq] at hdepth
      | succ depth =>
        rw [Nat.add_right_comm]
        simp only [tokenDepth?, hkind] at hdepth ⊢
        exact ih hdepth
    | number | root | operator =>
      simp only [tokenDepth?, hkind] at hdepth ⊢
      exact ih hdepth

/-- `LeavesOpen tokens places` says that `places` are those of the parentheses that the tokens open
and do not close, the last one first: what stands between two of them is balanced. -/
inductive LeavesOpen : List Token → List Nat → Prop
  | none {tokens : List Token} (hdepth : tokenDepth? 0 tokens = some 0) : LeavesOpen tokens []
  | cons {before after : List Token} {token : Token} {places : List Nat}
    (hbefore : LeavesOpen before places) (hkind : token.kind = .leftParen)
    (hafter : tokenDepth? 0 after = some 0) :
    LeavesOpen (before ++ token :: after) (token.offset :: places)

namespace LeavesOpen

variable {tokens : List Token} {place : Nat} {places : List Nat}

/-- Balanced tokens leave the same parentheses open. -/
theorem append (h : LeavesOpen tokens places) {more : List Token}
    (hmore : tokenDepth? 0 more = some 0) : LeavesOpen (tokens ++ more) places := by
  have hbalanced {tokens : List Token} (hdepth : tokenDepth? 0 tokens = some 0) :
      tokenDepth? 0 (tokens ++ more) = some 0 := by
    rw [tokenDepth?_append, hdepth]
    exact hmore
  cases h with
  | none hdepth => exact .none (hbalanced hdepth)
  | cons hbefore hkind hafter =>
    rw [List.append_assoc, List.cons_append]
    exact .cons hbefore hkind (hbalanced hafter)

/-- A closing parenthesis closes the last one that is open. -/
theorem close (h : LeavesOpen tokens (place :: places)) {token : Token}
    (hkind : token.kind = .rightParen) : LeavesOpen (tokens ++ [token]) places := by
  cases h with
  | @cons before after first _ hbefore hfirst hafter =>
    rw [List.append_assoc, List.cons_append]
    refine hbefore.append ?_
    have hopen : tokenDepth? 0 [first] = some 1 := by simp only [tokenDepth?, hfirst]
    have hclose : tokenDepth? 1 [token] = some 0 := by simp only [tokenDepth?, hkind]
    rw [tokenDepth?_cons, hopen, Option.bind_some, tokenDepth?_append, tokenDepth?_add hafter 1,
      Option.bind_some, hclose]

end LeavesOpen

/-! ## The groups on the stack -/

namespace Stacks

/-- The places of the groups that wait, the last one first. -/
def groupPlaces (pending : List (Pending × Nat)) : List Nat :=
  pending.filterMap fun entry => if entry.1 = .group then some entry.2 else none

variable {operands : List Float} {pending : List (Pending × Nat)}

/-- An operator that waits opens no group. -/
theorem groupPlaces_operator (op : Operator) (offset : Nat) :
    groupPlaces ((.operator op, offset) :: pending) = groupPlaces pending := by
  simp [groupPlaces]

/-- The group that was opened last comes first. -/
theorem groupPlaces_group (offset : Nat) :
    groupPlaces ((.group, offset) :: pending) = offset :: groupPlaces pending := by
  simp [groupPlaces]

/-- Operators on top of a stack do not change where its groups were opened. -/
theorem groupPlaces_operatorRun (run : List (Operator × Nat)) (pending : List (Pending × Nat)) :
    groupPlaces (operatorRun run ++ pending) = groupPlaces pending := by
  induction run with
  | nil => rfl
  | cons entry run ih =>
    change groupPlaces ((.operator entry.1, entry.2) :: (operatorRun run ++ pending)) = _
    rw [groupPlaces_operator, ih]

/-- Reducing leaves the groups as they are. -/
theorem groupPlaces_of_reduce {precedence : Nat} {reduced : Stacks}
    (hreduce : reduce precedence pending operands = .ok reduced) :
    groupPlaces reduced.pending = groupPlaces pending := by
  obtain ⟨run, rfl, -⟩ := exists_run_of_reduce hreduce
  rw [groupPlaces_operatorRun]

/-- Closing a group takes the last one off. -/
theorem groupPlaces_of_closeGroup {close : Span} {closed : Stacks}
    (hclose : closeGroup close pending operands = .ok closed) :
    ∃ place, groupPlaces pending = place :: groupPlaces closed.pending := by
  obtain ⟨run, place, rfl, -⟩ := exists_run_of_closeGroup hclose
  exact ⟨place, by rw [groupPlaces_operatorRun, groupPlaces_group]⟩

/-- A fault in an operator is not that of an open group. -/
theorem FaultInOperator.cause_ne {fault : Fault} (h : FaultInOperator pending fault) :
    fault.cause ≠ .unclosedParen := by
  obtain ⟨op, offset, -, rfl | ⟨-, rfl⟩⟩ := h
  · exact fun hcause => by cases hcause
  · exact fun hcause => by cases hcause

/-- The group that keeps the end from being reached is the last one. -/
theorem groupPlaces_of_finish {fault : Fault} (hfinish : finish pending operands = .error fault)
    (hcause : fault.cause = .unclosedParen) :
    ∃ place places, groupPlaces pending = place :: places ∧
      fault = faultAt place .unclosedParen := by
  induction pending generalizing operands with
  | nil => cases hfinish
  | cons entry pending ih =>
    obtain ⟨waiting, offset⟩ := entry
    cases waiting with
    | group =>
      cases hfinish
      exact ⟨offset, groupPlaces pending, groupPlaces_group offset, rfl⟩
    | operator op =>
      rcases bind_eq_error_iff.mp hfinish with happly | ⟨result, -, hrest⟩
      · have hwaiting : FaultInOperator ((.operator op, offset) :: pending) fault :=
          faultInOperator_of_apply happly
        exact absurd hcause hwaiting.cause_ne
      · rw [groupPlaces_operator]
        exact ih hrest

end Stacks

namespace Frame

open Stacks

variable {frame : Frame} {fault : Fault} {waiting next : Stacks} {token : Token}
  {tokens read : List Token}

/-- A token that is read keeps the groups on the stack those that are open. -/
theorem leavesOpen_of_feed (hread : LeavesOpen read (groupPlaces waiting.pending))
    (hfeed : feed evaluate waiting token = .ok next) :
    LeavesOpen (read ++ [token]) (groupPlaces next.pending) := by
  cases reads_of_feed hfeed with
  | number hkind | root hkind => exact hread.append (by simp only [tokenDepth?, hkind])
  | leftParen hkind =>
    rw [groupPlaces_group]
    exact .cons hread hkind rfl
  | rightParen hkind hclose =>
    obtain ⟨place, hplaces⟩ := groupPlaces_of_closeGroup hclose
    rw [hplaces] at hread
    exact hread.close hkind
  | operator hkind hreduce =>
    rw [groupPlaces_operator, groupPlaces_of_reduce hreduce]
    exact hread.append (by simp only [tokenDepth?, hkind])

/-- From empty stacks on, the groups on the stack are those that the tokens leave open. -/
theorem leavesOpen_of_feedAll_empty (hfeed : feedAll tokens .empty = .ok next) :
    LeavesOpen tokens (groupPlaces next.pending) := by
  have hempty : LeavesOpen [] (groupPlaces empty.pending) := .none rfl
  exact feedAll_induction (motive := fun read waiting =>
    LeavesOpen read (groupPlaces waiting.pending)) (fun _ _ _ _ => leavesOpen_of_feed) [] hempty
    hfeed

/-- No token fails because of a group that is open. -/
theorem FailsAt.cause_ne (h : FailsAt waiting token fault) : fault.cause ≠ .unclosedParen := by
  obtain ⟨hfeed, hargument⟩ := h
  cases hkind : token.kind with
  | number value =>
    simp only [feed, hkind] at hfeed
    cases hfeed
  | leftParen =>
    simp only [feed, hkind] at hfeed
    cases hfeed
  | rightParen =>
    simp only [feed, hkind] at hfeed
    rcases fault_of_closeGroup hfeed with hoperator | ⟨-, rfl⟩
    · exact hoperator.cause_ne
    · exact fun hcause => by cases hcause
  | operator op =>
    simp only [feed, hkind] at hfeed
    rcases bind_eq_error_iff.mp hfeed with hreduce | ⟨reduced, -, hnext⟩
    · exact (faultInOperator_of_reduce hreduce).cause_ne
    · cases hnext
  | root body =>
    obtain ⟨value, hvalue⟩ := hargument (ofRoot token body)
      (Token.argument?_eq_some_iff.mpr ⟨body, hkind, rfl⟩)
    simp only [feed, hkind, hvalue] at hfeed
    change rootOf token value >>= _ = _ at hfeed
    rcases bind_eq_error_iff.mp hfeed with hroot | ⟨root, -, hnext⟩
    · rw [rootOf] at hroot
      split at hroot
      · cases hroot
        exact fun hcause => by cases hcause
      · cases hroot
    · cases hnext

/-- A frame that ends with a group open fails in the last parenthesis that its tokens leave open. -/
theorem Raises.unclosedParen (h : frame.Raises fault) (hcause : fault.cause = .unclosedParen) :
    frame.scan.fault = none ∧ ∃ before token after, frame.scan.tokens = before ++ token :: after ∧
      token.kind = .leftParen ∧ tokenDepth? 0 after = some 0 ∧
      fault = faultAt token.offset .unclosedParen := by
  cases h with
  | token _ _ hfails => exact absurd hcause hfails.cause_ne
  | scan _ hscan =>
    obtain ⟨left, piece, right, -, -, -, hrejects, -⟩ := Scanner.exists_rejects hscan
    rw [hcause] at hrejects
    cases hrejects
  | conclude hfeed hsound hconclude =>
    rcases bind_eq_error_iff.mp hconclude with hfinish | ⟨result, -, hsingle⟩
    · obtain ⟨place, places, hplaces, rfl⟩ := groupPlaces_of_finish hfinish hcause
      have hopen := leavesOpen_of_feedAll_empty hfeed
      rw [hplaces] at hopen
      generalize htokens : frame.scan.tokens = tokens at hopen
      cases hopen with
      | cons _ hkind hafter => exact ⟨hsound, _, _, _, rfl, hkind, hafter, rfl⟩
    · rcases fault_of_single hsingle with ⟨-, rfl⟩ | ⟨-, rfl⟩
      · cases hcause
      · cases hcause

end Frame

end Surd
