import Mathlib
import Surd.Command
import Surd.Proofs.Command.Batch
import Surd.Proofs.Command.Dialogue
import Surd.Proofs.Session.Filter
import Surd.Proofs.Session.History

/-!
# One text given to all commands

A text of keys has the same result, or the same notice, whether it is evaluated directly, as the
only line of a batch or as a line of a dialogue. What was entered in the dialogue before is not seen
in the answer, only in the history (`frontEnds_agree`).
-/

namespace Surd

variable {text typed : Text} {value : Float} {diagnostic : Diagnostic}
  {content? : Text → Option Bytes} {input : Bytes}

/-- What is typed for a text of keys, with a carriage return or without, is a line from which the
text is read. -/
theorem trim_typed (haccepts : accepts text = true)
    (htyped : typed = text ∨ typed = text ++ ['\r']) : '\n' ∉ typed ∧ Text.trim typed = text := by
  have hblank : ∀ c ∈ text, isBlank c = false :=
    fun c hc => isBlank_of_isKey (accepts_iff.mp haccepts c hc)
  have hfeed : '\n' ∉ text := by
    intro hmem
    exact absurd (accepts_iff.mp haccepts _ hmem) (by decide)
  rcases htyped with rfl | rfl
  · have htrim := @Text.trim_append _ [] hblank (by simp)
    rw [List.append_nil] at htrim
    exact ⟨hfeed, htrim⟩
  · have hreturn : ∀ c ∈ ['\r'], isBlank c = true :=
      List.forall_mem_singleton.mpr (isBlank_of_isWhitespace (by decide))
    refine ⟨?_, Text.trim_append hblank hreturn⟩
    rw [List.mem_append, not_or]
    exact ⟨hfeed, by decide⟩

/-! ## Direct evaluation and batches -/

/-- A direct evaluation prints what the text has as its result, or nothing. -/
theorem outcome_eval (text : Text) (content? : Text → Option Bytes) (input : Bytes) :
    Command.outcome ["eval".toList, "--".toList, text] content? input =
      match evaluate text with
      | .ok value => ⟨Outcome.line (Number.result value), 0⟩
      | .error _ => ⟨[], Outcome.failed⟩ := rfl

/-- A batch over a single line prints the answer to that line. -/
theorem outcome_batch {file content : Text} {arguments : List Text}
    (harguments : Command.ofArguments? arguments = some (.batch file))
    (hfile : content? file = some (Text.encode content))
    (hcontent : content = typed ∨ content = Outcome.line typed) (hfeed : '\n' ∉ typed)
    (hne : Text.trim typed ≠ []) :
    Command.outcome arguments content? input =
      match evaluate (Text.trim typed) with
      | .ok value => ⟨Outcome.line (History.entry (Text.trim typed) (Number.result value)), 0⟩
      | .error diagnostic =>
        ⟨Outcome.line (Text.trim typed ++ [':', ' '] ++ (Notice.ofCause diagnostic.cause).message),
          Outcome.dataError⟩ := by
  have hwritten : Batch.written content = [typed] := by
    rcases hcontent with rfl | rfl
    · exact Batch.written_of_line hfeed hne
    · rw [Outcome.line, Batch.written_append, Batch.written_of_line hfeed hne]
      rfl
  simp only [Command.outcome, harguments, Command.run, hfile, Batch.ofFile_encode, Batch.ofText_eq,
    hwritten, Batch.entry, evaluate_trim, List.flatMap_singleton, List.all_cons, List.all_nil,
    Bool.and_true]
  cases evaluate typed with
  | ok value => rfl
  | error diagnostic => rfl

/-! ## Dialogues -/

namespace Dialogue

/-- After the lines `earlier` a dialogue answers `typed` with `answer` and goes on in `session`,
whose buffer is its next prompt, whatever comes later. -/
def Answers (earlier : List Text) (typed answer : Text) (session : Session) : Prop :=
  ∀ (content? : Text → Option Bytes) (input : Bytes) (later : List Bytes),
    Bytes.lines input = (earlier ++ [typed]).map Text.encode ++ later →
      let before := Command.outcome ["repl".toList] content?
        (Text.encode (earlier.flatMap Outcome.line))
      Command.outcome ["repl".toList] content? input =
        .after (before.output ++ answer) (run session later)

variable {earlier : List Text} {answer answer' : Text} {session session' : Session}

/-- The outcome of a dialogue that ends after lines that do not end it. -/
theorem ofInput_encode (hearlier : ∀ line ∈ earlier, Continues line) :
    ofInput (Text.encode (earlier.flatMap Outcome.line)) =
      ⟨transcript .initial earlier ++ prompt (sessionAfter .initial earlier), 0⟩ := by
  have hlines := Bytes.lines_encode (fun line hline => (hearlier line hline).1) []
  have hnone : Bytes.lines [] = [] := rfl
  rw [List.append_nil, hnone, List.append_nil] at hlines
  rw [ofInput, hlines, run_map_encode hearlier]

/-- A line is answered in the session after the lines before it. -/
theorem answers_step (hearlier : ∀ line ∈ earlier, Continues line) (htyped : Continues typed) :
    Answers earlier typed (step (sessionAfter .initial earlier) typed).2
      (step (sessionAfter .initial earlier) typed).1 := by
  intro content? input later hlines
  have hone : ∀ line ∈ [typed], Continues line := List.forall_mem_singleton.mpr htyped
  have hbefore : Command.outcome ["repl".toList] content?
      (Text.encode (earlier.flatMap Outcome.line)) = _ := ofInput_encode hearlier
  have hstep := run_append hone (sessionAfter .initial earlier) later
  have hafter : Command.outcome ["repl".toList] content? input = ofInput input := rfl
  rw [hafter, hbefore, ofInput, hlines, List.map_append, List.append_assoc, run_append hearlier,
    hstep, Outcome.after_after]
  simp [transcript, sessionAfter]

/-- The history is made of the lines with a value. -/
theorem history_sessionAfter (lines : List Text) :
    (sessionAfter .initial lines).history = ⟨lines.filterMap recorded?⟩ :=
  congrArg History.mk (entries_sessionAfter .initial lines)

/-- A text with a value is answered by its result. -/
theorem answers_of_ok (hearlier : ∀ line ∈ earlier, Continues line) (htyped : Continues typed)
    (haccepts : accepts (Text.trim typed) = true)
    (hvalue : evaluate (Text.trim typed) = .ok value) :
    Answers earlier typed (Outcome.line ('=' :: ' ' :: Number.result value))
      ⟨⟨Number.result value⟩, ⟨(earlier ++ [typed]).filterMap recorded?⟩⟩ := by
  have hhistory := history_sessionAfter (earlier ++ [typed])
  have hanswers := answers_step hearlier htyped
  rw [sessionAfter_concat, step_of_ok haccepts hvalue] at hhistory
  rw [step_of_ok haccepts hvalue] at hanswers
  dsimp only at hhistory hanswers
  rwa [hhistory] at hanswers

/-- A text without a value is answered by its notice, and the history stays as it is. -/
theorem answers_of_error (hearlier : ∀ line ∈ earlier, Continues line) (htyped : Continues typed)
    (hne : Text.trim typed ≠ []) (haccepts : accepts (Text.trim typed) = true)
    (hfault : evaluate (Text.trim typed) = .error diagnostic) :
    Answers earlier typed
      (Outcome.line ('!' :: ' ' :: (Notice.ofCause diagnostic.cause).message))
      ⟨⟨Text.trim typed⟩, ⟨earlier.filterMap recorded?⟩⟩ := by
  have hanswers := answers_step hearlier htyped
  rwa [step_of_error hne haccepts hfault, history_sessionAfter] at hanswers

/-- The history is answered by the lines with a value, the last one first. -/
theorem answers_history (hearlier : ∀ line ∈ earlier, Continues line) :
    Answers earlier ":history".toList
      ((earlier.filterMap recorded?).reverse.flatMap fun entry =>
        Outcome.line (' ' :: ' ' :: entry))
      (sessionAfter .initial earlier) := by
  have hrequest : Request.ofLine ":history".toList = .history := by decide
  have hanswers : Answers earlier ":history".toList _ _ := answers_step hearlier (by decide)
  rwa [step, hrequest, respond?, Option.getD_some, history_sessionAfter] at hanswers

/-- What a dialogue prints for a line, up to the prompt after it, is determined by the lines. -/
theorem Answers.append_prompt_eq (h : Answers earlier typed answer session)
    (h' : Answers earlier typed answer' session')
    (hearlier : ∀ line ∈ earlier, Continues line) (htyped : Continues typed) :
    answer ++ prompt session = answer' ++ prompt session' := by
  have hfeeds : ∀ line ∈ earlier ++ [typed], '\n' ∉ line := List.forall_mem_append.mpr
    ⟨fun line hline => (hearlier line hline).1, List.forall_mem_singleton.mpr htyped.1⟩
  have hlines := Bytes.lines_encode hfeeds []
  have hsame := (h (fun _ => none) _ [] hlines).symm.trans (h' (fun _ => none) _ [] hlines)
  have houtput := congrArg Outcome.output hsame
  simpa only [Outcome.after, run, List.append_assoc, List.append_cancel_left_eq] using houtput

/-- A result ends at the first line feed behind it. -/
theorem eq_result_of_line_append {result shown : Text} {history : History}
    (hsame : Outcome.line result ++ shown =
      Outcome.line (Number.result value) ++ prompt ⟨⟨Number.result value⟩, history⟩) :
    result = Number.result value := by
  have hfeed : '\n' ∉ Number.result value := Number.not_mem_result (by decide) (by decide) value
  have hprompt : '\n' ∉ prompt ⟨⟨Number.result value⟩, history⟩ := by
    rw [prompt, List.mem_append, not_or]
    exact ⟨hfeed, by decide⟩
  rw [Outcome.line, Outcome.line, List.append_assoc, List.append_assoc, List.singleton_append,
    List.singleton_append] at hsame
  -- the right side has a single line feed, and so has the left one
  have hcount := congrArg (List.count '\n') hsame
  rw [List.count_append, List.count_append, List.count_cons_self, List.count_cons_self,
    List.count_eq_zero.mpr hfeed, List.count_eq_zero.mpr hprompt] at hcount
  have hresult : '\n' ∉ result := List.count_eq_zero.mp (by omega)
  have hshown : '\n' ∉ shown := List.count_eq_zero.mp (by omega)
  exact ((List.append_cons_inj_of_notMem hresult hshown).mp hsame).1

/-- A dialogue answers with a result only if the text has it. -/
theorem Answers.exists_value {result : Text}
    (h : Answers earlier typed (Outcome.line ('=' :: ' ' :: result)) session)
    (hearlier : ∀ line ∈ earlier, Continues line) (htyped : Continues typed)
    (hne : Text.trim typed ≠ []) (haccepts : accepts (Text.trim typed) = true) :
    ∃ value, evaluate (Text.trim typed) = .ok value ∧ Number.result value = result := by
  cases hvalue : evaluate (Text.trim typed) with
  | ok value =>
    have hanswers := answers_of_ok hearlier htyped haccepts hvalue
    have hsame := h.append_prompt_eq hanswers hearlier htyped
    have hbehind := @List.append_cancel_left _ ['=', ' '] _ _ hsame
    exact ⟨value, rfl, (eq_result_of_line_append hbehind).symm⟩
  | error diagnostic =>
    have hanswers := answers_of_error hearlier htyped hne haccepts hvalue
    have hsame := h.append_prompt_eq hanswers hearlier htyped
    exact absurd (List.cons.inj hsame).1 (by decide)

end Dialogue

open Dialogue

/-- One text gives the same answer everywhere. A direct evaluation prints a result exactly if a
batch over the text prints it behind the text, and exactly if a dialogue answers with it, whatever
was entered before; then the dialogue has it in its buffer. In all other cases the batch and the
dialogue give the same notice, and the dialogue keeps the text. At any later time the history of
the dialogue is that of the lines with a value. -/
theorem frontEnds_agree {file content : Text} {arguments : List Text} {earlier : List Text}
    (hne : text ≠ []) (haccepts : accepts text = true)
    (htyped : typed = text ∨ typed = text ++ ['\r'])
    (harguments : Command.ofArguments? arguments = some (.batch file))
    (hfile : content? file = some (Text.encode content))
    (hcontent : content = typed ∨ content = Outcome.line typed)
    (hearlier : ∀ line ∈ earlier, Continues line) :
    let direct := Command.outcome ["eval".toList, "--".toList, text] content? input
    let batch := Command.outcome arguments content? input
    (∀ result,
        (direct = ⟨Outcome.line result, 0⟩ ↔
          batch = ⟨Outcome.line (History.entry text result), 0⟩) ∧
        (direct = ⟨Outcome.line result, 0⟩ ↔
          ∃ session, Answers earlier typed (Outcome.line ('=' :: ' ' :: result)) session) ∧
        (direct = ⟨Outcome.line result, 0⟩ →
          Answers earlier typed (Outcome.line ('=' :: ' ' :: result))
            ⟨⟨result⟩, ⟨(earlier ++ [typed]).filterMap recorded?⟩⟩)) ∧
      ((∀ result, direct ≠ ⟨Outcome.line result, 0⟩) → direct = ⟨[], 1⟩ ∧ ∃ notice : Notice,
        batch = ⟨Outcome.line (text ++ [':', ' '] ++ notice.message), 65⟩ ∧
          Answers earlier typed (Outcome.line ('!' :: ' ' :: notice.message))
            ⟨⟨text⟩, ⟨earlier.filterMap recorded?⟩⟩) ∧
      ∀ later, (∀ line ∈ later, Continues line) → ∃ session,
        Answers (earlier ++ typed :: later) ":history".toList
          (((earlier ++ typed :: later).filterMap recorded?).reverse.flatMap fun entry =>
            Outcome.line (' ' :: ' ' :: entry)) session := by
  intro direct batch
  obtain ⟨hfeed, rfl⟩ := trim_typed haccepts htyped
  have hcontinues := continues_of_accepts hfeed haccepts
  have hdirect : direct = _ := outcome_eval _ content? input
  have hbatch : batch = _ := outcome_batch harguments hfile hcontent hfeed hne
  refine ⟨fun result => ?_, fun hnone => ?_, fun later hlater => ?_⟩
  · have hresult : direct = ⟨Outcome.line result, 0⟩ ↔
        ∃ value, evaluate (Text.trim typed) = .ok value ∧ Number.result value = result := by
      rw [hdirect]
      cases evaluate (Text.trim typed) with
      | ok value => simp [Outcome.line]
      | error diagnostic => simp [Outcome.failed]
    have hentry : batch = ⟨Outcome.line (History.entry (Text.trim typed) result), 0⟩ ↔
        ∃ value, evaluate (Text.trim typed) = .ok value ∧ Number.result value = result := by
      rw [hbatch]
      cases evaluate (Text.trim typed) with
      | ok value => simp [Outcome.line, History.entry]
      | error diagnostic => simp [Outcome.dataError]
    have hanswers (hprinted : direct = ⟨Outcome.line result, 0⟩) :
        Answers earlier typed (Outcome.line ('=' :: ' ' :: result))
          ⟨⟨result⟩, ⟨(earlier ++ [typed]).filterMap recorded?⟩⟩ := by
      obtain ⟨value, hvalue, rfl⟩ := hresult.mp hprinted
      exact answers_of_ok hearlier hcontinues haccepts hvalue
    refine ⟨hresult.trans hentry.symm, ⟨fun hprinted => ⟨_, hanswers hprinted⟩, ?_⟩, hanswers⟩
    rintro ⟨session, h⟩
    exact hresult.mpr (h.exists_value hearlier hcontinues hne haccepts)
  · cases hvalue : evaluate (Text.trim typed) with
    | ok value =>
      rw [hvalue] at hdirect
      exact absurd hdirect (hnone _)
    | error diagnostic =>
      rw [hvalue] at hdirect hbatch
      exact ⟨hdirect, _, hbatch, answers_of_error hearlier hcontinues hne haccepts hvalue⟩
  · have hlines : ∀ line ∈ earlier ++ typed :: later, Continues line :=
      List.forall_mem_append.mpr ⟨hearlier, List.forall_mem_cons.mpr ⟨hcontinues, hlater⟩⟩
    exact ⟨_, answers_history hlines⟩

/-- A product that is a line of a batch, and the answer to which is the same in a dialogue after a
sum, a press of the percent key, a division by zero, a text that no keyboard types and a blank
line. -/
theorem frontEnds_agree_product :
    let content? : Text → Option Bytes := fun _ => some (Text.encode "2*3\r\n".toList)
    let earlier := ["1+1".toList, ":percent".toList, "1/0".toList, "x".toList, " ".toList]
    Command.outcome ["eval".toList, "--".toList, "2*3".toList] content? [] =
        ⟨"6\n".toList, 0⟩ ∧
      Command.outcome ["batch".toList, "products".toList] content? [] =
        ⟨"2*3 = 6\n".toList, 0⟩ ∧
      Answers earlier "2*3\r".toList "= 6\n".toList
        ⟨⟨"6".toList⟩, ⟨["1+1 = 2".toList, "2*3 = 6".toList]⟩⟩ := by
  intro content? earlier
  have hearlier : ∀ line ∈ earlier, Continues line := by decide +kernel
  have hagree := @frontEnds_agree "2*3".toList "2*3\r".toList content? [] "products".toList
    "2*3\r\n".toList ["batch".toList, "products".toList] earlier (by decide) (by decide)
    (.inr rfl) rfl rfl (.inr rfl) hearlier
  have hdirect : Command.outcome ["eval".toList, "--".toList, "2*3".toList] content? [] =
      ⟨"6\n".toList, 0⟩ := by decide +kernel
  have hrecorded : (earlier ++ ["2*3\r".toList]).filterMap recorded? =
      ["1+1 = 2".toList, "2*3 = 6".toList] := by decide +kernel
  obtain ⟨hbatch, -, hanswers⟩ := hagree.1 "6".toList
  have hanswers := hanswers hdirect
  rw [hrecorded] at hanswers
  exact ⟨hdirect, hbatch.mp hdirect, hanswers⟩

end Surd
