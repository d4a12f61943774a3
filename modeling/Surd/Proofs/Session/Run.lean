import Surd.Session

/-!
# Runs of a session

An action does one of three things (`Session.Performs`): a submission of a text with a value
replaces it by the result and adds a line to the history, a submission of any other text changes
nothing, and what is no submission leaves the history alone. What every action of a run keeps holds
after the run (`Session.holds_run`).
-/

namespace Surd.Session

variable {before after : Session} {value : Float}

/-! ## One action -/

/-- A buffer with a value is replaced by its result, and the history grows by a line. -/
theorem submit_of_ok {session : Session} (hvalue : evaluate session.input.text = .ok value) :
    session.submit = (.ok value, ⟨⟨Number.result value⟩,
      session.history.push session.input.text (Number.result value)⟩) := by
  simp only [submit, hvalue]

/-- A buffer without a value stays, and so does the history. -/
theorem submit_of_error {session : Session} {diagnostic : Diagnostic}
    (hfault : evaluate session.input.text = .error diagnostic) :
    session.submit = (.error (.ofCause diagnostic.cause), session) := by
  simp only [submit, hfault]

/-- A submission gives what the buffer evaluates to. -/
theorem fst_submit (session : Session) : session.submit.1 =
    (evaluate session.input.text).mapError fun diagnostic => .ofCause diagnostic.cause := by
  cases hvalue : evaluate session.input.text with
  | ok value => rw [submit_of_ok hvalue]; rfl
  | error diagnostic => rw [submit_of_error hvalue]; rfl

/-- Only a buffer with a value gives that value when it is submitted. -/
theorem fst_submit_eq_ok_iff {session : Session} :
    session.submit.1 = .ok value ↔ evaluate session.input.text = .ok value := by
  cases hvalue : evaluate session.input.text with
  | ok other =>
    rw [submit_of_ok hvalue, Except.ok.injEq, Except.ok.injEq]
  | error diagnostic =>
    rw [submit_of_error hvalue]
    simp

/-- After a submission that gives a value the buffer holds the result. -/
theorem input_of_submit (hsubmit : before.submit = (.ok value, after)) :
    after.input = ⟨Number.result value⟩ := by
  have hvalue := fst_submit_eq_ok_iff.mp (congrArg Prod.fst hsubmit)
  rw [submit_of_ok hvalue] at hsubmit
  cases hsubmit
  rfl

/-- All that an action can do, with what the user learns from it. -/
inductive Performs (session : Session) : Action → Answer → Session → Prop
  | value {value : Float} (hvalue : evaluate session.input.text = .ok value) :
    Performs session .submit (.value value) ⟨⟨Number.result value⟩,
      session.history.push session.input.text (Number.result value)⟩
  | notice {diagnostic : Diagnostic} (hfault : evaluate session.input.text = .error diagnostic) :
    Performs session .submit (.notice (.ofCause diagnostic.cause)) session
  | edit {action : Action} {answer : Answer} (input : InputBuffer) (haction : action ≠ .submit) :
    Performs session action answer { session with input }

/-- Whatever an action does to a session is one of these. -/
theorem performs (session : Session) (action : Action) :
    session.Performs action (session.perform action).1 (session.perform action).2 := by
  cases action with
  | submit =>
    cases hvalue : evaluate session.input.text with
    | ok value =>
      simp only [perform, submit_of_ok hvalue]
      exact .value hvalue
    | error diagnostic =>
      simp only [perform, submit_of_error hvalue]
      exact .notice hvalue
  | append | backspace | clear | setText | percent => exact .edit _ (fun h => by cases h)

/-! ## Runs -/

/-- The session after a run of actions. -/
def run (session : Session) (actions : List Action) : Session :=
  actions.foldl (fun session action => (session.perform action).2) session

/-- Without actions a session stays as it is. -/
@[simp] theorem run_nil (session : Session) : session.run [] = session := rfl

/-- A run begins with its first action. -/
@[simp] theorem run_cons (session : Session) (action : Action) (actions : List Action) :
    session.run (action :: actions) = (session.perform action).2.run actions := rfl

/-- Whether every action of a run is `allowed` in the session in which it is performed. -/
def Runs (allowed : Session → Action → Prop) (session : Session) : List Action → Prop
  | [] => True
  | action :: actions => allowed session action ∧ (session.perform action).2.Runs allowed actions

/-- If the allowed actions can be decided, so can the allowed runs. -/
instance decidableRuns {allowed : Session → Action → Prop}
    [∀ session action, Decidable (allowed session action)] (session : Session) :
    (actions : List Action) → Decidable (session.Runs allowed actions)
  | [] => inferInstanceAs (Decidable True)
  | action :: actions =>
    have : Decidable ((session.perform action).2.Runs allowed actions) := decidableRuns _ actions
    inferInstanceAs (Decidable (allowed session action ∧ _))

/-- If every action is allowed everywhere, then so is every run. -/
theorem runs_of_forall {allowed : Session → Action → Prop}
    (h : ∀ session action, allowed session action) (session : Session) (actions : List Action) :
    session.Runs allowed actions := by
  induction actions generalizing session with
  | nil => trivial
  | cons action actions ih => exact ⟨h session action, ih _⟩

/-- The first part of a run is a run. -/
theorem Runs.of_append {allowed : Session → Action → Prop} {session : Session}
    {first second : List Action} (hruns : session.Runs allowed (first ++ second)) :
    session.Runs allowed first := by
  induction first generalizing session with
  | nil => trivial
  | cons action first ih => exact ⟨hruns.1, ih hruns.2⟩

/-- What holds before a run, and is kept by every action that is allowed, holds after the run. -/
theorem holds_run {allowed : Session → Action → Prop} {holds : Session → Prop}
    (hstep : ∀ session action, holds session → allowed session action →
      holds (session.perform action).2)
    {session : Session} {actions : List Action} (hstart : holds session)
    (hruns : session.Runs allowed actions) : holds (session.run actions) := by
  induction actions generalizing session with
  | nil => exact hstart
  | cons action actions ih => exact ih (hstep session action hstart hruns.1) hruns.2

end Surd.Session
