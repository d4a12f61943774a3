import Mathlib
import Surd.Command
import Surd.Proofs.Command.Dialogue

/-!
# Prompts and answers

A dialogue prints a prompt, reads a line and answers it, and so on. What it has printed for complete
lines does not depend on what comes later, and a quit command ends it just as the end of the input
does, while a line that is no text makes it fail (`outcome_dialogue_causal`).
-/

namespace Surd

namespace Dialogue

/-! ## The course of a dialogue -/

/-- What is printed at once: a buffer as the prompt for a line, or the answer to a line. -/
inductive Print
  | prompt (buffer : InputBuffer)
  | answer (text : Text)
  deriving DecidableEq

namespace Print

/-- The text that is printed. -/
def text : Print → Text
  | prompt buffer => buffer.text ++ [' ', '>', ' ']
  | answer text => text

/-- The buffer that a prompt shows. -/
def buffer? : Print → Option InputBuffer
  | prompt buffer => some buffer
  | answer _ => none

end Print

/-- The session after the bytes of a line and the answer to it, or nothing if they end the
dialogue. -/
def read? (session : Session) (line : Bytes) : Option (Session × Text) :=
  (Bytes.decode? line).bind fun line => respond? session (.ofLine line)

/-- What a dialogue prints over the lines that are still to be read. -/
def prints (session : Session) : List Bytes → List Print
  | [] => [.prompt session.input]
  | line :: lines =>
    .prompt session.input ::
      match read? session line with
      | none => []
      | some (session, answer) => .answer answer :: prints session lines

/-- A dialogue prints its prompts and answers, and nothing else. -/
theorem output_run (session : Session) (lines : List Bytes) :
    (run session lines).output = (prints session lines).flatMap Print.text := by
  induction lines generalizing session with
  | nil => exact (List.append_nil _).symm
  | cons line lines ih =>
    rw [run, prints, List.flatMap_cons, Outcome.after, read?]
    refine congrArg (prompt session ++ ·) ?_
    cases Bytes.decode? line with
    | none => rfl
    | some line =>
      rw [Option.bind_some]
      cases hanswer : respond? session (.ofLine line) with
      | none => simp [hanswer]
      | some answer => simp [hanswer, Outcome.after, ih, Print.text]

/-- More lines are answered after what is printed without them. -/
theorem prefix_prints_append (session : Session) (first second : List Bytes) :
    prints session first <+: prints session (first ++ second) := by
  induction first generalizing session with
  | nil =>
    -- the prompt at the end of the input is the prompt for a line that follows
    cases second with
    | nil => exact List.prefix_rfl
    | cons line second => exact List.prefix_append [_] _
  | cons line first ih =>
    rw [List.cons_append, prints, prints, List.prefix_cons_inj]
    cases read? session line with
    | none => exact List.prefix_rfl
    | some answer => exact (List.prefix_cons_inj _).mpr (ih answer.1)

/-- More input adds to what a dialogue prints, and takes nothing back. -/
theorem prefix_output_run_append (session : Session) (first second : List Bytes) :
    (run session first).output <+: (run session (first ++ second)).output := by
  rw [output_run, output_run]
  exact (prefix_prints_append session first second).flatMap Print.text

/-- There is a prompt before each line and one after the last, and each of them shows the buffer
that the lines before it have left. -/
theorem prompts_map_encode {lines : List Text} (hlines : ∀ line ∈ lines, Continues line)
    (session : Session) :
    (prints session (lines.map Text.encode)).filterMap Print.buffer? =
      (List.range (lines.length + 1)).map fun count =>
        (sessionAfter session (lines.take count)).input := by
  induction lines generalizing session with
  | nil => rfl
  | cons line lines ih =>
    rw [List.forall_mem_cons] at hlines
    have hread : read? session (Text.encode line) = some (step session line) := by
      rw [read?, Bytes.decode?_encode, Option.bind_some, respond?_of_continues hlines.1]
    have hrest := ih hlines.2 (step session line).1
    rw [List.map_cons, prints, hread, List.length_cons, List.range_succ_eq_map, List.map_cons,
      List.map_map]
    exact congrArg (session.input :: ·) hrest

/-! ## The end of a dialogue -/

/-- The lines that end a dialogue, without the blank characters at their ends. -/
def quitCommands : List Text := [":quit".toList, ":q".toList]

/-- A quit command ends a dialogue as the end of the input does. -/
theorem run_of_quit {line : Text} (hquit : Text.trim line ∈ quitCommands) (session : Session)
    (later : List Bytes) : run session (Text.encode line :: later) = run session [] := by
  have hne : Text.trim line ≠ [] := by
    intro hempty
    rw [hempty] at hquit
    exact absurd hquit (by decide)
  have hrequest : Request.ofLine line = .quit := by
    rw [quitCommands, List.mem_cons, List.mem_singleton] at hquit
    unfold Request.ofLine
    dsimp only
    rw [if_neg hne, if_pos hquit]
  simp only [run, Bytes.decode?_encode, hrequest, respond?, Outcome.after, List.append_nil]

/-- A line that is no text ends a dialogue as a failure. -/
theorem run_of_not_isText {line : Bytes} (hline : ¬ line.IsText) (session : Session)
    (later : List Bytes) :
    run session (line :: later) = ⟨(run session []).output, Outcome.failed⟩ := by
  simp only [run, Bytes.decode?_eq_none_iff.mpr hline, Outcome.after, List.append_nil]

variable {earlier : List Text}

/-- After a quit command nothing is read: the dialogue is the one that ends before it. -/
theorem run_append_quit (hearlier : ∀ line ∈ earlier, Continues line) {line : Text}
    (hquit : Text.trim line ∈ quitCommands) (session : Session) (later : List Bytes) :
    run session (earlier.map Text.encode ++ Text.encode line :: later) =
      run session (earlier.map Text.encode) := by
  rw [run_append hearlier, run_of_quit hquit, ← run_append hearlier, List.append_nil]

/-- At a line that is not valid the dialogue fails, with everything printed up to there. -/
theorem run_append_not_isText (hearlier : ∀ line ∈ earlier, Continues line) {line : Bytes}
    (hline : ¬ line.IsText) (session : Session) (later : List Bytes) :
    run session (earlier.map Text.encode ++ line :: later) =
      ⟨(run session (earlier.map Text.encode)).output, Outcome.failed⟩ := by
  rw [run_append hearlier, run_of_not_isText hline, run_map_encode hearlier]
  rfl

end Dialogue

open Dialogue

/-- What a dialogue prints is made of prompts and answers. What it prints for complete lines is a
prefix of what it prints when anything follows them. If none of them quits, then a line behind them
that quits makes no difference, whatever comes after it, while a line that is no text makes the
dialogue fail where it would have ended without a failure; and there is one prompt more than there
are lines, each of which shows the buffer that the lines before it have left. -/
theorem outcome_dialogue_causal {arguments : List Text}
    (harguments : Command.ofArguments? arguments = some .dialogue)
    (content? : Text → Option Bytes) {input : Bytes} (hcomplete : input.IsComplete) :
    let dialogue (input : Bytes) := Command.outcome arguments content? input
    let prints := Dialogue.prints .initial (Bytes.lines input)
    (dialogue input).output = prints.flatMap Print.text ∧
    (∀ later : Bytes, (dialogue input).output <+: (dialogue (input ++ later)).output) ∧
    ∀ text : Text, input = Text.encode text →
      (∀ line ∈ Text.lines text, Text.trim line ∉ quitCommands) →
      (dialogue input).exitCode = 0 ∧
      (∀ (quit : Text) (later : Bytes), '\n' ∉ quit → Text.trim quit ∈ quitCommands →
        dialogue (input ++ Text.encode (Outcome.line quit) ++ later) = dialogue input) ∧
      (∀ invalid later : Bytes, 10 ∉ invalid → ¬ invalid.IsText →
        (∀ byte ∈ later.head?, byte = 10) →
        dialogue (input ++ invalid ++ later) = ⟨(dialogue input).output, 1⟩) ∧
      prints.filterMap Print.buffer? = (List.range (input.count 10 + 1)).map fun count =>
        (sessionAfter .initial ((Text.lines text).take count)).input := by
  intro dialogue prints
  have hdialogue (input : Bytes) : dialogue input = run .initial (Bytes.lines input) := by
    simp only [dialogue, Command.outcome, harguments, Command.run, ofInput]
  have hlater (later : Bytes) : dialogue (input ++ later) =
      run .initial (Bytes.lines input ++ Bytes.lines later) := by
    rw [hdialogue, Bytes.lines_append hcomplete]
  refine ⟨?_, fun later => ?_, ?_⟩
  · rw [hdialogue, output_run]
  · rw [hdialogue, hlater]
    exact prefix_output_run_append .initial _ _
  rintro text rfl hquits
  have hlines := Bytes.lines_encode_eq_map text
  have hcontinues : ∀ line ∈ Text.lines text, Continues line :=
    fun line hline => ⟨Text.not_mem_of_mem_lines hline, hquits line hline⟩
  refine ⟨?_, fun quit later hfeed hquit => ?_, fun invalid later hfeed hinvalid hhead => ?_, ?_⟩
  · rw [hdialogue, hlines, run_map_encode hcontinues]
  · have hrest := Bytes.lines_encode (List.forall_mem_singleton.mpr hfeed) later
    rw [List.flatMap_singleton, List.map_singleton, List.singleton_append] at hrest
    rw [List.append_assoc, hlater, hrest, hdialogue, hlines, run_append_quit hcontinues hquit]
  · have hne : invalid ≠ [] := by
      rintro rfl
      exact hinvalid (Bytes.isText_encode [])
    obtain ⟨others, hrest⟩ := Bytes.lines_append_of_head? hfeed hne hhead
    rw [List.append_assoc, hlater, hrest, hdialogue, hlines,
      run_append_not_isText hcontinues hinvalid]
    rfl
  · have hlength := Bytes.length_lines hcomplete
    rw [hlines, List.length_map] at hlength
    rw [← hlength, ← prompts_map_encode hcontinues, ← hlines]

/-- A sum, the percent key, a blank line and a division by zero. What is behind them is not read
after a quit command, and makes the dialogue fail without one. -/
theorem outcome_dialogue_causal_percent :
    let input : Bytes := Text.encode "2+3\n:percent\r\n\n1/0\n".toList
    let dialogue (input : Bytes) := Command.outcome ["repl".toList] (fun _ => none) input
    dialogue input =
        ⟨"0 > = 5\n5 > 0.05 > 0.05 > ! division by zero is impossible\n1/0 > ".toList, 0⟩ ∧
      dialogue (input ++ Text.encode (Outcome.line ":q".toList) ++ [255]) = dialogue input ∧
      dialogue (input ++ [255] ++ []) = ⟨(dialogue input).output, 1⟩ ∧
      (Dialogue.prints .initial (Bytes.lines input)).filterMap Print.buffer? =
        [⟨"0".toList⟩, ⟨"5".toList⟩, ⟨"0.05".toList⟩, ⟨"0.05".toList⟩, ⟨"1/0".toList⟩] := by
  intro input dialogue
  have hcomplete : input.IsComplete := by decide +kernel
  obtain ⟨houtput, -, htext⟩ :=
    @outcome_dialogue_causal ["repl".toList] rfl (fun _ => none) input hcomplete
  obtain ⟨hexit, hquit, hinvalid, hprompts⟩ := htext _ rfl (by decide +kernel)
  have hbyte : ¬ Bytes.IsText [255] := Bytes.decode?_eq_none_iff.mp (by decide +kernel)
  have hprinted : (dialogue input).output =
      "0 > = 5\n5 > 0.05 > 0.05 > ! division by zero is impossible\n1/0 > ".toList :=
    houtput.trans (by decide +kernel)
  refine ⟨?_, hquit _ [255] (by decide) (by decide), hinvalid [255] [] (by decide) hbyte (by simp),
    hprompts.trans (by decide +kernel)⟩
  rw [← hprinted, ← hexit]

end Surd
