import Surd.Evaluation
import Surd.Proofs.Token.Cut

/-!
# Evaluating what is left of a frame

The evaluation of a frame can be stopped between two tokens: the stacks then hold what was read, and
the scan of what is left is evaluated from there. A statement about evaluation from any stacks can
be proved by induction along the scan, which one about whole frames cannot.
-/

namespace Surd

/-- A computation in two steps gives a result exactly if both steps do. -/
theorem bind_eq_ok_iff {ε α β : Type} {first : Except ε α} {next : α → Except ε β} {b : β} :
    first >>= next = .ok b ↔ ∃ a, first = .ok a ∧ next a = .ok b := by
  cases first with
  | error e =>
    constructor
    · intro h
      cases h
    · rintro ⟨a, h, -⟩
      cases h
  | ok a =>
    constructor
    · exact fun h => ⟨a, rfl, h⟩
    · rintro ⟨a, h, hnext⟩
      cases h
      exact hnext

/-- A computation in two steps fails if the first step does, or the second one after it. -/
theorem bind_eq_error_iff {ε α β : Type} {first : Except ε α} {next : α → Except ε β} {e : ε} :
    first >>= next = .error e ↔ first = .error e ∨ ∃ a, first = .ok a ∧ next a = .error e := by
  cases first with
  | error e' =>
    constructor
    · intro h
      cases h
      exact .inl rfl
    · rintro (h | ⟨a, h, -⟩)
      · cases h
        rfl
      · cases h
  | ok a =>
    constructor
    · exact fun h => .inr ⟨a, rfl, h⟩
    · rintro (h | ⟨a, h, hnext⟩)
      · cases h
      · cases h
        exact hnext

/-- The stacks with one more operand. -/
def Stacks.push (waiting : Stacks) (value : Float) : Stacks :=
  { waiting with operands := value :: waiting.operands }

/-- A pushed value is the last operand. -/
@[simp] theorem Stacks.operands_push (waiting : Stacks) (value : Float) :
    (waiting.push value).operands = value :: waiting.operands := rfl

/-- Pushing a value changes nothing in what waits. -/
@[simp] theorem Stacks.pending_push (waiting : Stacks) (value : Float) :
    (waiting.push value).pending = waiting.pending := rfl

/-- Reads tokens onto the stacks, one after the other. -/
def Frame.feedAll (tokens : List Token) (waiting : Stacks) : Except Fault Stacks :=
  tokens.foldlM (feed evaluate) waiting

namespace Frame

/-- Tokens are read from the first one on. -/
theorem feedAll_cons (token : Token) (tokens : List Token) (waiting : Stacks) :
    feedAll (token :: tokens) waiting = feed evaluate waiting token >>= feedAll tokens :=
  List.foldlM_cons

/-- Reading a single token is the step for it. -/
theorem feedAll_singleton (token : Token) (waiting : Stacks) :
    feedAll [token] waiting = feed evaluate waiting token := by
  rw [feedAll_cons]
  cases feed evaluate waiting token <;> rfl

/-- Reading two sequences of tokens is reading one and then the other. -/
theorem feedAll_append (first second : List Token) (waiting : Stacks) :
    feedAll (first ++ second) waiting = feedAll first waiting >>= feedAll second :=
  List.foldlM_append

/-- What every token keeps that is read is kept by tokens that are read one after the other. -/
theorem feedAll_induction {motive : List Token → Stacks → Prop}
    (step : ∀ read token waiting next, motive read waiting →
      feed evaluate waiting token = .ok next → motive (read ++ [token]) next)
    (read : List Token) {tokens : List Token} {waiting next : Stacks} (hread : motive read waiting)
    (hfeed : feedAll tokens waiting = .ok next) : motive (read ++ tokens) next := by
  induction tokens generalizing read waiting with
  | nil =>
    cases hfeed
    rwa [List.append_nil]
  | cons token tokens ih =>
    rw [feedAll_cons, bind_eq_ok_iff] at hfeed
    obtain ⟨middle, hfirst, hrest⟩ := hfeed
    rw [List.append_cons]
    exact ih (read ++ [token]) (step read token waiting middle hread hfirst) hrest

/-- All that a token can do to the stacks when it is read without a fault. -/
inductive Reads (waiting : Stacks) (token : Token) : Stacks → Prop
  | number {value : Float} (hkind : token.kind = .number value) :
    Reads waiting token (waiting.push value)
  | root {body : Text} {value : Float} (hkind : token.kind = .root body)
    (hargument : (ofRoot token body).evaluate = .ok value) (hvalue : ¬ value < 0) :
    Reads waiting token (waiting.push value.sqrt)
  | leftParen (hkind : token.kind = .leftParen) :
    Reads waiting token { waiting with pending := (.group, token.offset) :: waiting.pending }
  | rightParen {closed : Stacks} (hkind : token.kind = .rightParen)
    (hclose : Stacks.closeGroup token.span waiting.pending waiting.operands = .ok closed) :
    Reads waiting token closed
  | operator {op : Operator} {reduced : Stacks} (hkind : token.kind = .operator op)
    (hreduce : Stacks.reduce op.precedence waiting.pending waiting.operands = .ok reduced) :
    Reads waiting token { reduced with pending := (.operator op, token.offset) :: reduced.pending }

/-- A step for a token that succeeds is one of the ways in which a token is read. -/
theorem reads_of_feed {waiting next : Stacks} {token : Token}
    (hfeed : feed evaluate waiting token = .ok next) : Reads waiting token next := by
  cases hkind : token.kind with
  | number value =>
    simp only [feed, hkind] at hfeed
    cases hfeed
    exact .number hkind
  | root body =>
    simp only [feed, hkind, bind_eq_ok_iff] at hfeed
    obtain ⟨value, hargument, root, hroot, hnext⟩ := hfeed
    cases hnext
    rw [rootOf] at hroot
    split at hroot
    · cases hroot
    next hvalue =>
      cases hroot
      exact .root hkind hargument hvalue
  | leftParen =>
    simp only [feed, hkind] at hfeed
    cases hfeed
    exact .leftParen hkind
  | rightParen =>
    simp only [feed, hkind] at hfeed
    exact .rightParen hkind hfeed
  | operator op =>
    simp only [feed, hkind, bind_eq_ok_iff] at hfeed
    obtain ⟨reduced, hreduce, hnext⟩ := hfeed
    cases hnext
    exact .operator hkind hreduce

/-- The argument of every root that is read has a value. -/
theorem exists_evaluate_of_mem {tokens : List Token} {waiting next : Stacks}
    (hfeed : feedAll tokens waiting = .ok next) {token : Token} (hmem : token ∈ tokens)
    {body : Text} (hkind : token.kind = .root body) :
    ∃ value, (ofRoot token body).evaluate = .ok value := by
  induction tokens generalizing waiting with
  | nil => cases hmem
  | cons first tokens ih =>
    rw [feedAll_cons, bind_eq_ok_iff] at hfeed
    obtain ⟨middle, hfirst, hrest⟩ := hfeed
    rcases List.mem_cons.mp hmem with rfl | hmem
    · cases reads_of_feed hfirst with
      | root hkind' hargument =>
        rw [hkind] at hkind'
        cases hkind'
        exact ⟨_, hargument⟩
      | number hkind' | leftParen hkind' | rightParen hkind' | operator hkind' =>
        rw [hkind] at hkind'
        cases hkind'
    · exact ih hrest hmem

end Frame

/-- The value that is left when no token is left to read. -/
def Stacks.conclude (span : Span) (waiting : Stacks) : Except Fault Float :=
  finish waiting.pending waiting.operands >>= single span

/-- The value of the frame at `span` when `waiting` holds what was read of it, and the scan is what
is left. -/
def Scan.evaluateFrom (span : Span) (waiting : Stacks) (scan : Scan) : Except Fault Float := do
  let waiting ← Frame.feedAll scan.tokens waiting
  match scan.fault with
  | some fault => .error fault
  | none => waiting.conclude span

/-- A frame is evaluated from empty stacks, with all of its scan left to read. -/
theorem Frame.evaluate_eq_evaluateFrom (frame : Frame) :
    frame.evaluate = frame.scan.evaluateFrom frame.span .empty := by
  rw [Frame.evaluate_eq]
  rfl

/-- Evaluation goes on behind the tokens that a scan begins with. -/
theorem Scan.evaluateFrom_after (span : Span) (waiting : Stacks) (tokens : List Token)
    (scan : Scan) :
    (scan.after tokens).evaluateFrom span waiting =
      Frame.feedAll tokens waiting >>= fun waiting => scan.evaluateFrom span waiting := by
  simp only [evaluateFrom, after, Frame.feedAll_append, bind_assoc]

/-- What is left at the end is a value if a single operand is left. -/
theorem Stacks.single_eq_ok_iff {span : Span} {operands : List Float} {value : Float} :
    single span operands = .ok value ↔ operands = [value] := by
  match operands with
  | [] | [_] | _ :: _ :: _ => simp [single]

/-- Evaluation from stacks gives a value only if all that is left can be read, and a single operand
is left then. -/
theorem Scan.evaluateFrom_eq_ok_iff {span : Span} {waiting : Stacks} {scan : Scan} {value : Float} :
    scan.evaluateFrom span waiting = .ok value ↔
      scan.fault = none ∧ ∃ last, Frame.feedAll scan.tokens waiting = .ok last ∧
        Stacks.finish last.pending last.operands = .ok [value] := by
  rw [evaluateFrom, bind_eq_ok_iff]
  cases hfault : scan.fault with
  | some fault => simp
  | none => simp [Stacks.conclude, bind_eq_ok_iff, Stacks.single_eq_ok_iff]

/-- A text has the value of the frame of its normal form. -/
theorem evaluate_eq_ok_iff {text : Text} {value : Float} :
    evaluate text = .ok value ↔ (Frame.whole (normalize text)).evaluate = .ok value := by
  rw [evaluate, evaluateNormal]
  cases (Frame.whole (normalize text)).evaluate with
  | ok same =>
    constructor <;>
    · intro h
      cases h
      rfl
  | error fault =>
    constructor <;>
    · intro h
      cases h

end Surd
