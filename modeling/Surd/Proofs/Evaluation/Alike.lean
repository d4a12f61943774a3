import Mathlib.Data.List.Forall2
import Surd.Proofs.Evaluation.Remainder

/-!
# Evaluations that differ in places only

A value, or the cause of a fault, depends on what the tokens of a frame mean and not on where they
stand. `Alike` compares two evaluations up to the places of their faults, and `Frame.evaluate_alike`
says that frames with the same meaning evaluate alike. The relation between numbers is a parameter,
so that two evaluations can also be compared whose numbers differ slightly.
-/

namespace Surd

/-- Two computations are alike if both give results that are related, or both fail for the same
cause, be it in different places. -/
inductive Alike {α β : Type} (related : α → β → Prop) : Except Fault α → Except Fault β → Prop
  | ok {a : α} {b : β} (h : related a b) : Alike related (.ok a) (.ok b)
  | error {first second : Fault} (h : first.cause = second.cause) :
    Alike related (.error first) (.error second)

namespace Alike

variable {α β γ δ : Type} {related : α → β → Prop} {other : γ → δ → Prop}

/-- Alike computations that go on alike are alike. -/
theorem bind {first : Except Fault α} {second : Except Fault β} {next : α → Except Fault γ}
    {next' : β → Except Fault δ} (h : Alike related first second)
    (hnext : ∀ a b, related a b → Alike other (next a) (next' b)) :
    Alike other (first >>= next) (second >>= next') := by
  cases h with
  | ok h => exact hnext _ _ h
  | error h => exact .error h

/-- A computation is like itself. -/
theorem refl {same : α → α → Prop} (hsame : ∀ a, same a a) (value : Except Fault α) :
    Alike same value value := by
  cases value with
  | ok a => exact .ok (hsame a)
  | error fault => exact .error rfl

/-- What is like a result is a result. -/
theorem exists_ok {first : Except Fault α} {b : β} (h : Alike related first (.ok b)) :
    ∃ a, first = .ok a ∧ related a b := by
  cases h with
  | ok h => exact ⟨_, rfl, h⟩

/-- Computations that are alike with equal results give diagnostics that agree in everything that
follows from the cause. -/
theorem mapError_within_eq {first second : Except Fault α} (h : Alike Eq first second)
    (source source' : Text) (view : Cause → β) :
    (first.mapError (Fault.within source)).mapError (fun diagnostic => view diagnostic.cause) =
      (second.mapError (Fault.within source')).mapError
        fun diagnostic => view diagnostic.cause := by
  cases h with
  | ok h =>
    rw [h]
    rfl
  | error h => simp only [Except.mapError, Fault.within, h]

end Alike

/-- Operands of which only the last ones may differ, and are related. -/
inductive LastRelated (related : Float → Float → Prop) : List Float → List Float → Prop
  | nil : LastRelated related [] []
  | cons {a b : Float} (rest : List Float) (h : related a b) :
    LastRelated related (a :: rest) (b :: rest)

/-- Under a reflexive relation operands are related to themselves. -/
theorem LastRelated.refl {related : Float → Float → Prop} (hrefl : ∀ a, related a a)
    (operands : List Float) : LastRelated related operands operands := by
  cases operands with
  | nil => exact .nil
  | cons a rest => exact .cons rest (hrefl a)

/-- Operands whose last ones are equal are equal. -/
theorem LastRelated.eq {first second : List Float} (h : LastRelated Eq first second) :
    first = second := by
  cases h with
  | nil => rfl
  | cons rest h => rw [h]

/-- A relation between numbers that operators keep when the right operands are related, and roots
keep too. -/
structure KeptByCalculation (related : Float → Float → Prop) : Prop where
  value? : ∀ (op : Operator) (left a b : Float), related a b →
    Option.Rel related (op.value? left a) (op.value? left b)
  rootOf : ∀ (token token' : Token) (a b : Float), related a b →
    Alike related (Frame.rootOf token a) (Frame.rootOf token' b)

/-- Equal numbers have equal values under every operator, and equal roots. -/
theorem keptByCalculation_eq : KeptByCalculation Eq where
  value? op left a b h := by
    subst h
    cases op.value? left a with
    | none => exact .none
    | some value => exact .some rfl
  rootOf token token' a b h := by
    subst h
    unfold Frame.rootOf
    split
    · exact .error rfl
    · exact .ok rfl

/-- What waits on two stacks is the same up to its place. -/
def PendingAlike : List (Pending × Nat) → List (Pending × Nat) → Prop :=
  List.Forall₂ fun first second => first.1 = second.1

/-- What waits is the same as itself. -/
theorem PendingAlike.refl (pending : List (Pending × Nat)) : PendingAlike pending pending := by
  induction pending with
  | nil => exact .nil
  | cons entry pending ih => exact .cons rfl ih

/-- Stacks with the same operators and groups, and operands that are the same but for the last. -/
structure StacksAlike (related : Float → Float → Prop) (first second : Stacks) : Prop where
  operands : LastRelated related first.operands second.operands
  pending : PendingAlike first.pending second.pending

/-- Stacks that differ in the operand that was pushed last are alike. -/
theorem StacksAlike.push {related : Float → Float → Prop} {a b : Float} (hab : related a b)
    (waiting : Stacks) : StacksAlike related (waiting.push a) (waiting.push b) :=
  ⟨.cons _ hab, .refl _⟩

/-- Under a reflexive relation stacks are alike to themselves. -/
theorem StacksAlike.refl {related : Float → Float → Prop} (hrefl : ∀ a, related a a)
    (waiting : Stacks) : StacksAlike related waiting waiting :=
  ⟨.refl hrefl _, .refl _⟩

namespace Stacks

variable {related : Float → Float → Prop} {operands operands' : List Float}
  {pending pending' : List (Pending × Nat)}

/-- Applying an operator at two places keeps operands related, or fails for the same cause: the last
operand is the right one. -/
theorem apply_alike (hkept : KeptByCalculation related) (op : Operator) (offset offset' : Nat)
    (hoperands : LastRelated related operands operands') :
    Alike (LastRelated related) (apply op offset operands) (apply op offset' operands') := by
  cases hoperands with
  | nil => exact .error rfl
  | cons rest h =>
    cases rest with
    | nil => exact .error rfl
    | cons left rest =>
      have hvalue := hkept.value? op left _ _ h
      simp only [apply]
      generalize op.value? left _ = value at hvalue ⊢
      generalize op.value? left _ = value' at hvalue ⊢
      cases hvalue with
      | some h => exact .ok (.cons rest h)
      | none => exact .error rfl

/-- Making room for an operator keeps stacks alike, or fails for the same cause. -/
theorem reduce_alike (hkept : KeptByCalculation related) (precedence : Nat)
    (hpending : PendingAlike pending pending')
    (hoperands : LastRelated related operands operands') :
    Alike (StacksAlike related) (reduce precedence pending operands)
      (reduce precedence pending' operands') := by
  induction hpending generalizing operands operands' with
  | nil => exact .ok ⟨hoperands, .nil⟩
  | @cons entry entry' pending pending' hentry hpending ih =>
    obtain ⟨waiting, offset⟩ := entry
    obtain ⟨waiting', offset'⟩ := entry'
    cases hentry
    cases waiting with
    | group => exact .ok ⟨hoperands, .cons rfl hpending⟩
    | operator op =>
      simp only [reduce]
      split
      · exact .ok ⟨hoperands, .cons rfl hpending⟩
      · exact (apply_alike hkept op offset offset' hoperands).bind fun _ _ h => ih h

/-- Closing a group keeps stacks alike, or fails for the same cause. -/
theorem closeGroup_alike (hkept : KeptByCalculation related) (close close' : Span)
    (hpending : PendingAlike pending pending')
    (hoperands : LastRelated related operands operands') :
    Alike (StacksAlike related) (closeGroup close pending operands)
      (closeGroup close' pending' operands') := by
  induction hpending generalizing operands operands' with
  | nil => exact .error rfl
  | @cons entry entry' pending pending' hentry hpending ih =>
    obtain ⟨waiting, offset⟩ := entry
    obtain ⟨waiting', offset'⟩ := entry'
    cases hentry
    cases waiting with
    | group => exact .ok ⟨hoperands, hpending⟩
    | operator op => exact (apply_alike hkept op offset offset' hoperands).bind fun _ _ h => ih h

/-- Applying all that waits keeps operands related, or fails for the same cause. -/
theorem finish_alike (hkept : KeptByCalculation related) (hpending : PendingAlike pending pending')
    (hoperands : LastRelated related operands operands') :
    Alike (LastRelated related) (finish pending operands) (finish pending' operands') := by
  induction hpending generalizing operands operands' with
  | nil => exact .ok hoperands
  | @cons entry entry' pending pending' hentry hpending ih =>
    obtain ⟨waiting, offset⟩ := entry
    obtain ⟨waiting', offset'⟩ := entry'
    cases hentry
    cases waiting with
    | group => exact .error rfl
    | operator op => exact (apply_alike hkept op offset offset' hoperands).bind fun _ _ h => ih h

/-- Related operands leave related values, or fail for the same cause. -/
theorem single_alike (span span' : Span) (hoperands : LastRelated related operands operands') :
    Alike related (single span operands) (single span' operands') := by
  cases hoperands with
  | nil => exact .error rfl
  | cons rest h =>
    cases rest with
    | nil => exact .ok h
    | cons left rest => exact .error rfl

end Stacks

/-- Tokens that mean the same. The arguments of roots count by their values. -/
inductive TokensAlike (first second : Token) : Prop
  | same (hkind : first.kind = second.kind) (hroot : ∀ body, first.kind ≠ .root body)
  | root {body body' : Text} (hfirst : first.kind = .root body)
    (hsecond : second.kind = .root body')
    (hvalue : Alike Eq (Frame.ofRoot first body).evaluate (Frame.ofRoot second body').evaluate)

/-- Scans that mean the same: token by token, and in the cause of the fault that ends them. -/
structure ScansAlike (first second : Scan) : Prop where
  tokens : List.Forall₂ TokensAlike first.tokens second.tokens
  fault : first.fault.map Fault.cause = second.fault.map Fault.cause

/-- Whether a token puts no operand on the stack. -/
def Token.IsConnective (token : Token) : Prop :=
  token.kind = .leftParen ∨ token.kind = .rightParen ∨ ∃ op, token.kind = .operator op

namespace Frame

variable {related : Float → Float → Prop} {waiting waiting' : Stacks} {first second : Token}

/-- A parenthesis or an operator has the same effect in both places. -/
theorem feed_alike_of_connective (hkept : KeptByCalculation related)
    (hkind : first.kind = second.kind) (hconnective : first.IsConnective)
    (hwaiting : StacksAlike related waiting waiting') :
    Alike (StacksAlike related) (feed evaluate waiting first) (feed evaluate waiting' second) := by
  obtain ⟨hoperands, hpending⟩ := hwaiting
  rcases hconnective with hfirst | hfirst | ⟨op, hfirst⟩
  · simp only [feed, ← hkind, hfirst]
    exact .ok ⟨hoperands, .cons rfl hpending⟩
  · simp only [feed, ← hkind, hfirst]
    exact Stacks.closeGroup_alike hkept _ _ hpending hoperands
  · simp only [feed, ← hkind, hfirst]
    refine (Stacks.reduce_alike hkept _ hpending hoperands).bind fun reduced reduced' h => ?_
    exact .ok ⟨h.operands, .cons rfl h.pending⟩

/-- Reading nothing but a parenthesis or an operator has the same effect in both places. -/
theorem feedAll_alike_of_connective (hkept : KeptByCalculation related)
    (hkind : first.kind = second.kind) (hconnective : first.IsConnective)
    (hwaiting : StacksAlike related waiting waiting') :
    Alike (StacksAlike related) (feedAll [first] waiting) (feedAll [second] waiting') := by
  rw [feedAll_singleton, feedAll_singleton]
  exact feed_alike_of_connective hkept hkind hconnective hwaiting

/-- Roots whose arguments have related values push related values. -/
theorem feedAll_root_alike (hkept : KeptByCalculation related) {body body' : Text}
    (hfirst : first.kind = .root body) (hsecond : second.kind = .root body')
    (hvalue : Alike related (ofRoot first body).evaluate (ofRoot second body').evaluate) :
    Alike (fun next next' => ∃ a b, related a b ∧ next = waiting.push a ∧ next' = waiting.push b)
      (feedAll [first] waiting) (feedAll [second] waiting) := by
  simp only [feedAll_singleton, feed, hfirst, hsecond]
  refine hvalue.bind fun a b hab => (hkept.rootOf first second a b hab).bind fun a b hab => ?_
  exact .ok ⟨a, b, hab, rfl, rfl⟩

/-- A token has the same effect on the same operands in both places. -/
theorem feed_alike (htokens : TokensAlike first second)
    (hwaiting : StacksAlike Eq waiting waiting') :
    Alike (StacksAlike Eq) (feed evaluate waiting first) (feed evaluate waiting' second) := by
  have hoperands := hwaiting.operands.eq
  cases htokens with
  | same hkind hroot =>
    cases hfirst : first.kind with
    | number value =>
      simp only [feed, ← hkind, hfirst, hoperands]
      exact .ok ⟨.refl (fun _ => rfl) _, hwaiting.pending⟩
    | root body => exact absurd hfirst (hroot body)
    | leftParen => exact feed_alike_of_connective keptByCalculation_eq hkind (.inl hfirst) hwaiting
    | rightParen =>
      exact feed_alike_of_connective keptByCalculation_eq hkind (.inr (.inl hfirst)) hwaiting
    | operator op =>
      exact feed_alike_of_connective keptByCalculation_eq hkind (.inr (.inr ⟨op, hfirst⟩)) hwaiting
  | root hfirst hsecond hvalue =>
    simp only [feed, hfirst, hsecond, hoperands]
    refine hvalue.bind fun a b h => (keptByCalculation_eq.rootOf _ _ _ _ h).bind fun a b h => ?_
    subst h
    exact .ok ⟨.refl (fun _ => rfl) _, hwaiting.pending⟩

/-- Tokens that mean the same, one by one, have the same effect on the same operands. -/
theorem feedAll_alike {tokens tokens' : List Token}
    (htokens : List.Forall₂ TokensAlike tokens tokens')
    (hwaiting : StacksAlike Eq waiting waiting') :
    Alike (StacksAlike Eq) (feedAll tokens waiting) (feedAll tokens' waiting') := by
  induction htokens generalizing waiting waiting' with
  | nil => exact .ok hwaiting
  | cons htoken htokens ih =>
    rw [feedAll_cons, feedAll_cons]
    exact (feed_alike htoken hwaiting).bind fun _ _ h => ih h

end Frame

/-- What is left when no token is left to read is the same in both places. -/
theorem Stacks.conclude_alike {related : Float → Float → Prop} {waiting waiting' : Stacks}
    (hkept : KeptByCalculation related) (span span' : Span)
    (hwaiting : StacksAlike related waiting waiting') :
    Alike related (waiting.conclude span) (waiting'.conclude span') :=
  (finish_alike hkept hwaiting.pending hwaiting.operands).bind fun _ _ h => single_alike _ _ h

/-- Scans that mean the same are evaluated alike from the same operands. -/
theorem Scan.evaluateFrom_alike {scan scan' : Scan} {waiting waiting' : Stacks} {span span' : Span}
    (hscans : ScansAlike scan scan') (hwaiting : StacksAlike Eq waiting waiting') :
    Alike Eq (scan.evaluateFrom span waiting) (scan'.evaluateFrom span' waiting') := by
  refine (Frame.feedAll_alike hscans.tokens hwaiting).bind fun last last' hlast => ?_
  have hfault := hscans.fault
  cases hfirst : scan.fault with
  | none =>
    cases hsecond : scan'.fault with
    | none => exact Stacks.conclude_alike keptByCalculation_eq span span' hlast
    | some fault' => simp [hfirst, hsecond] at hfault
  | some fault =>
    cases hsecond : scan'.fault with
    | none => simp [hfirst, hsecond] at hfault
    | some fault' =>
      simp only [hfirst, hsecond, Option.map_some, Option.some.injEq] at hfault
      exact .error hfault

/-- Frames that mean the same are evaluated alike. -/
theorem Frame.evaluate_alike {frame frame' : Frame} (hscans : ScansAlike frame.scan frame'.scan) :
    Alike Eq frame.evaluate frame'.evaluate := by
  rw [Frame.evaluate_eq_evaluateFrom, Frame.evaluate_eq_evaluateFrom]
  exact Scan.evaluateFrom_alike hscans (.refl (fun _ => rfl) _)

end Surd
