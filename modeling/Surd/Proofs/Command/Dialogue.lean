import Mathlib
import Surd.Command.Dialogue
import Surd.Proofs.Lines
import Surd.Proofs.Session.Run
import Surd.Proofs.Splice

/-!
# Runs of a dialogue

A dialogue reads line after line (`Dialogue.run_append`). The answer to an expression depends on its
line only, not on the session (`step_of_ok`, `step_of_error`), and the history is made of the lines
whose text is accepted and has a value, whatever else was entered between them
(`entries_sessionAfter`).
-/

namespace Surd

/-- What was printed in two steps was printed in one. -/
theorem Outcome.after_after (first second : Text) (outcome : Outcome) :
    after first (after second outcome) = after (first ++ second) outcome := by
  rw [after, after, after, List.append_assoc]

/-- The empty text has no value. -/
theorem evaluate_nil (value : Float) : evaluate [] ≠ .ok value := by
  intro hvalue
  have hnormal : normalize [] = [] := rfl
  have hscan : (Frame.whole []).scan = ⟨[], none⟩ := Scanner.scan_nil 0 none
  rw [evaluate_eq_ok_iff, hnormal, Frame.evaluate_eq, Frame.evaluateWith, hscan] at hvalue
  cases hvalue

namespace Dialogue

/-! ## What a line asks for -/

/-- A line after which a dialogue goes on: it has no line feed in it and does not quit. -/
def Continues (line : Text) : Prop :=
  '\n' ∉ line ∧ Text.trim line ∉ [":quit".toList, ":q".toList]

/-- Whether a line continues a dialogue is decided by comparing it with the commands. -/
instance decidableContinues : DecidablePred Continues :=
  fun line => inferInstanceAs (Decidable ('\n' ∉ line ∧ _))

/-- What a line submits is the line without the blank characters at its ends. -/
theorem Request.eq_of_submit {line text : Text} (hrequest : ofLine line = submit text) :
    text = Text.trim line := by
  unfold ofLine at hrequest
  dsimp only at hrequest
  split_ifs at hrequest
  exact (Request.submit.inj hrequest).symm

/-- Only a quit command quits. -/
theorem Request.ofLine_ne_quit {line : Text} (hline : Continues line) : ofLine line ≠ quit := by
  have hquit : ¬ (Text.trim line = ":quit".toList ∨ Text.trim line = ":q".toList) := by
    have hline := hline.2
    rwa [List.mem_cons, List.mem_singleton] at hline
  intro hrequest
  unfold ofLine at hrequest
  dsimp only at hrequest
  rw [if_neg hquit] at hrequest
  split_ifs at hrequest

/-- A text that is accepted differs from every text that is not, such as a command: no key types a
colon. -/
theorem ne_of_accepts {text command : Text} (haccepts : accepts text = true)
    (hrefused : accepts command = false) : text ≠ command := by
  rintro rfl
  rw [haccepts] at hrefused
  cases hrefused

/-- A dialogue goes on after a line whose text is accepted. -/
theorem continues_of_accepts {line : Text} (hfeed : '\n' ∉ line)
    (haccepts : accepts (Text.trim line) = true) : Continues line := by
  refine ⟨hfeed, fun hquit => ?_⟩
  rw [List.mem_cons, List.mem_singleton] at hquit
  rcases hquit with hquit | hquit
  · exact ne_of_accepts haccepts (by decide) hquit
  · exact ne_of_accepts haccepts (by decide) hquit

/-- A text that is accepted is submitted, unless it is empty. -/
theorem Request.ofLine_of_accepts {line : Text} (hne : Text.trim line ≠ [])
    (haccepts : accepts (Text.trim line) = true) : ofLine line = submit (Text.trim line) := by
  have hcommand (command : Text) (hrefused : accepts command = false) :=
    ne_of_accepts haccepts hrefused
  unfold ofLine
  dsimp only
  rw [if_neg hne, if_neg (not_or.mpr ⟨hcommand _ (by decide), hcommand _ (by decide)⟩),
    if_neg (hcommand _ (by decide)), if_neg (hcommand _ (by decide)),
    if_neg (hcommand _ (by decide))]

/-! ## One line -/

/-- The session after a line and what is printed for it. A line that quits prints nothing. -/
def step (session : Session) (line : Text) : Session × Text :=
  (respond? session (.ofLine line)).getD (session, [])

/-- A line that continues the dialogue is answered by its step. -/
theorem respond?_of_continues {line : Text} (hline : Continues line) (session : Session) :
    respond? session (.ofLine line) = some (step session line) := by
  have hsome : ∃ answer, respond? session (.ofLine line) = some answer := by
    cases hrequest : Request.ofLine line with
    | quit => exact absurd hrequest (Request.ofLine_ne_quit hline)
    | nothing | clear | percent | history | submit => exact ⟨_, rfl⟩
  obtain ⟨answer, hanswer⟩ := hsome
  rw [step, hanswer, Option.getD_some]

variable {line : Text} {value : Float} {diagnostic : Diagnostic}

/-- A text that is accepted is submitted, and answered with a line. -/
theorem step_of_accepts (hne : Text.trim line ≠ []) (haccepts : accepts (Text.trim line) = true)
    (session : Session) : step session line =
      ((submit session (Text.trim line)).1, Outcome.line (submit session (Text.trim line)).2) := by
  rw [step, Request.ofLine_of_accepts hne haccepts]
  rfl

/-- A text with a value is answered by its result, which is put into the buffer. -/
theorem step_of_ok (haccepts : accepts (Text.trim line) = true)
    (hvalue : evaluate (Text.trim line) = .ok value) (session : Session) :
    step session line =
      (⟨⟨Number.result value⟩, session.history.push (Text.trim line) (Number.result value)⟩,
        Outcome.line ('=' :: ' ' :: Number.result value)) := by
  have hne : Text.trim line ≠ [] := by
    intro hempty
    rw [hempty] at hvalue
    exact evaluate_nil value hvalue
  have hsubmit : Session.submit ⟨⟨Text.trim line⟩, session.history⟩ = _ :=
    Session.submit_of_ok hvalue
  rw [step_of_accepts hne haccepts, submit, InputBuffer.setText, if_pos haccepts]
  simp only [hsubmit]

/-- A text without a value is answered by its notice, and stays in the buffer. -/
theorem step_of_error (hne : Text.trim line ≠ []) (haccepts : accepts (Text.trim line) = true)
    (hfault : evaluate (Text.trim line) = .error diagnostic) (session : Session) :
    step session line = ({ session with input := ⟨Text.trim line⟩ },
      Outcome.line ('!' :: ' ' :: (Notice.ofCause diagnostic.cause).message)) := by
  have hsubmit : Session.submit ⟨⟨Text.trim line⟩, session.history⟩ = _ :=
    Session.submit_of_error hfault
  rw [step_of_accepts hne haccepts, submit, InputBuffer.setText, if_pos haccepts]
  simp only [hsubmit]

/-- The line of the history for a line of a dialogue whose text is accepted and has a value. -/
def recorded? (line : Text) : Option Text :=
  if accepts (Text.trim line) then
    (evaluate (Text.trim line)).toOption.map fun value =>
      History.entry (Text.trim line) (Number.result value)
  else none

/-- A line that is not accepted leaves the history as it is. -/
theorem history_step_of_not_accepts (hrefused : accepts (Text.trim line) = false)
    (session : Session) : (step session line).1.history = session.history := by
  cases hrequest : Request.ofLine line with
  | nothing | quit | clear | percent | history => rw [step, hrequest]; rfl
  | submit text =>
    have htext := Request.eq_of_submit hrequest
    rw [← htext] at hrefused
    rw [step, hrequest, respond?, submit, InputBuffer.setText,
      if_neg (Bool.eq_false_iff.mp hrefused)]
    rfl

/-- A line adds to the history only if its text is accepted and has a value. -/
theorem entries_step (session : Session) (line : Text) :
    (step session line).1.history.entries = session.history.entries ++ (recorded? line).toList := by
  cases haccepts : accepts (Text.trim line) with
  | false =>
    rw [history_step_of_not_accepts haccepts, recorded?, haccepts, if_neg Bool.false_ne_true,
      Option.toList_none, List.append_nil]
  | true =>
    rw [recorded?, if_pos haccepts]
    cases hvalue : evaluate (Text.trim line) with
    | ok value =>
      rw [step_of_ok haccepts hvalue]
      rfl
    | error diagnostic =>
      have hnone : (Except.error diagnostic : Except Diagnostic Float).toOption = none := rfl
      rw [hnone, Option.map_none, Option.toList_none, List.append_nil]
      by_cases hne : Text.trim line = []
      · have hnothing : Request.ofLine line = .nothing := if_pos hne
        rw [step, hnothing]
        rfl
      · rw [step_of_error hne haccepts hvalue]

/-! ## Many lines -/

/-- The session after lines that are read in turn. -/
def sessionAfter (session : Session) (lines : List Text) : Session :=
  lines.foldl (fun session line => (step session line).1) session

/-- The last line is a step of the session after the lines before it. -/
theorem sessionAfter_concat (session : Session) (lines : List Text) (line : Text) :
    sessionAfter session (lines ++ [line]) = (step (sessionAfter session lines) line).1 := by
  rw [sessionAfter, List.foldl_concat, sessionAfter]

/-- What is printed for lines that are read in turn, each after the prompt for it. -/
def transcript (session : Session) : List Text → Text
  | [] => []
  | line :: lines =>
    prompt session ++ (step session line).2 ++ transcript (step session line).1 lines

/-- A dialogue that has read lines goes on in the session after them. -/
theorem run_append {earlier : List Text} (hearlier : ∀ line ∈ earlier, Continues line)
    (session : Session) (later : List Bytes) :
    run session (earlier.map Text.encode ++ later) =
      .after (transcript session earlier) (run (sessionAfter session earlier) later) := by
  induction earlier generalizing session with
  | nil => rfl
  | cons line earlier ih =>
    rw [List.forall_mem_cons] at hearlier
    have hrest := ih hearlier.2 (step session line).1
    rw [List.map_cons, List.cons_append, run, Bytes.decode?_encode]
    simp only [respond?_of_continues hearlier.1]
    rw [hrest, Outcome.after_after, Outcome.after_after]
    rfl

/-- A dialogue that has read lines and finds nothing behind them ends without a failure. -/
theorem run_map_encode {earlier : List Text} (hearlier : ∀ line ∈ earlier, Continues line)
    (session : Session) :
    run session (earlier.map Text.encode) =
      ⟨transcript session earlier ++ prompt (sessionAfter session earlier), 0⟩ := by
  have hrun := run_append hearlier session []
  rwa [List.append_nil] at hrun

/-- The lines of the history come from the lines with a value, in the same order. -/
theorem entries_sessionAfter (session : Session) (lines : List Text) :
    (sessionAfter session lines).history.entries =
      session.history.entries ++ lines.filterMap recorded? := by
  induction lines generalizing session with
  | nil => exact (List.append_nil _).symm
  | cons line lines ih =>
    have hrest := ih (step session line).1
    rw [entries_step, List.append_assoc] at hrest
    rw [sessionAfter, List.foldl_cons, ← sessionAfter, hrest]
    cases hrecorded : recorded? line with
    | none => rw [List.filterMap_cons_none hrecorded, Option.toList_none, List.nil_append]
    | some entry => rw [List.filterMap_cons_some hrecorded, Option.toList_some]; rfl

end Dialogue

end Surd
