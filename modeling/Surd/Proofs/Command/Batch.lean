import Mathlib
import Surd.Command
import Surd.Proofs.Diagnostics
import Surd.Proofs.Lines
import Surd.Proofs.Session.History

/-!
# Batches line by line

A batch answers each line that is not blank by one line, which depends on that line only. So a batch
over two texts, one behind the other, prints what a batch over the first one and then one over the
second one prints, and it fails if one of these does (`outcome_batch_lines`).
-/

namespace Surd

/-- The blank characters at the ends of a text do not matter for its value. -/
theorem evaluate_trim (text : Text) : evaluate (Text.trim text) = evaluate text := by
  rw [evaluate, evaluate, normalize, normalize, squeeze_trim]

/-- A notice that shows a message is a single line if the message is. -/
theorem Notice.not_mem_message {cause : Cause} (hshown : ofCause cause = computation cause.message)
    (hmessage : '\n' ∉ cause.message) : '\n' ∉ (ofCause cause).message := by
  have htext : (computation cause.message).message =
      "computation error: ".toList ++ cause.message := rfl
  rw [hshown, htext, List.mem_append, not_or]
  exact ⟨by decide, hmessage⟩

/-- A notice for a fault in a text is a single line: what it cites of the text is not blank. -/
theorem Fault.PointsInto.not_mem_notice {text : Text} {fault : Fault}
    (h : fault.PointsInto (normalize text)) : '\n' ∉ (Notice.ofCause fault.cause).message := by
  obtain ⟨before, piece, after, hsource, -, hdescribes⟩ := h
  have hpiece : '\n' ∉ piece := by
    intro hmem
    have hblank : isBlank '\n' = false := isBlank_of_mem_normalize (by rw [hsource]; simp [hmem])
    exact absurd hblank (by decide)
  cases hcause : fault.cause with
  | unexpectedCharacter c =>
    rw [hcause] at hdescribes
    obtain ⟨rfl, -, -⟩ := hdescribes
    refine Notice.not_mem_message rfl ?_
    have htext : (Cause.unexpectedCharacter c).message =
        "unexpected character '".toList ++ ([c] ++ ['\'']) := rfl
    rw [htext, List.mem_append, List.mem_append, not_or, not_or]
    exact ⟨by decide, hpiece, by decide⟩
  | invalidNumber literal =>
    rw [hcause] at hdescribes
    obtain ⟨rfl, -⟩ := hdescribes
    refine Notice.not_mem_message rfl ?_
    have htext : (Cause.invalidNumber piece).message =
        "invalid number `".toList ++ (piece ++ ['`']) := rfl
    rw [htext, List.mem_append, List.mem_append, not_or, not_or]
    exact ⟨by decide, hpiece, by decide⟩
  | missingOperator count =>
    refine Notice.not_mem_message rfl ?_
    have htext : (Cause.missingOperator count).message = Nat.toDigits 10 count ++
        " values are left without an operator between them".toList := rfl
    rw [htext, List.mem_append, not_or]
    exact ⟨fun hmem => absurd (Decimal.isDigit_of_mem_toDigits _ hmem) (by decide), by decide⟩
  | missingOperand op => cases op <;> decide
  | negativeRoot value => exact (by decide : '\n' ∉ Notice.invalidRoot.message)
  | missingRootParen | unterminatedRoot | unmatchedClose | unclosedParen | divisionByZero
  | emptyExpression => decide

namespace Batch

/-! ## Lines -/

/-- The lines of a text that are not blank. -/
def written (text : Text) : List Text :=
  (text.splitOn '\n').filter fun line => Text.trim line ≠ []

/-- A batch evaluates the lines that are not blank, without the blank characters at their ends. -/
theorem entries_eq (text : Text) : entries text = (written text).map Text.trim := by
  have hlines : entries text =
      ((Text.lines text).filter fun line => Text.trim line ≠ []).map Text.trim := by
    rw [entries, List.filter_map]
    congr 1
    refine List.filter_congr fun line _ => ?_
    cases hline : Text.trim line <;> simp [hline]
  rw [hlines, written]
  rcases Text.splitOn_eq_lines text with hsplit | hsplit
  · rw [hsplit]
  · have hempty : Text.trim [] = [] := rfl
    rw [hsplit, List.filter_append, List.filter_singleton]
    simp [hempty]

/-- The lines of two files with a line feed between them are those of both files. -/
theorem written_append (first second : Text) :
    written (first ++ '\n' :: second) = written first ++ written second := by
  rw [written, List.splitOn_eq_splitOnP, List.splitOnP_append_cons _ _ (by rfl), List.filter_append]
  rfl

/-- A single line that is not blank is kept as it stands. -/
theorem written_of_line {line : Text} (hfeed : '\n' ∉ line) (hne : Text.trim line ≠ []) :
    written line = [line] := by
  rw [written, List.splitOn_eq_singleton hfeed, List.filter_singleton, decide_eq_true hne,
    cond_true]

/-- A single blank line is left out. -/
theorem written_of_blank {line : Text} (hfeed : '\n' ∉ line) (hblank : Text.trim line = []) :
    written line = [] := by
  rw [written, List.splitOn_eq_singleton hfeed, List.filter_singleton,
    decide_eq_false (not_not.mpr hblank), cond_false]

/-! ## What is printed for a line -/

/-- What a batch prints for a line, in a line of its own: the line without the blank characters at
its ends, with its result or its notice. -/
def entry (line : Text) : Text :=
  match evaluate line with
  | .ok value => History.entry (Text.trim line) (Number.result value)
  | .error diagnostic =>
    Text.trim line ++ [':', ' '] ++ (Notice.ofCause diagnostic.cause).message

/-- The answer to a trimmed line is the entry of the line itself. -/
theorem answer_trim (line : Text) :
    answer (Text.trim line) = (Outcome.line (entry line), (evaluate line).isOk) := by
  rw [answer, entry, evaluate_trim]
  cases evaluate line <;> rfl

/-- A batch prints an entry for every line that is not blank, and it fails if one of them has no
value. -/
theorem ofText_eq (text : Text) :
    ofText text =
      ⟨(written text).flatMap fun line => Outcome.line (entry line),
        if (written text).all fun line => (evaluate line).isOk then 0 else Outcome.dataError⟩ := by
  simp only [ofText, entries_eq, List.flatMap_map, List.all_map, Function.comp_def, answer_trim]

/-- An entry is a single line. -/
theorem not_mem_entry {line : Text} (hfeed : '\n' ∉ line) : '\n' ∉ entry line := by
  have htrim : '\n' ∉ Text.trim line := fun hmem => hfeed (Text.mem_of_mem_trim hmem)
  unfold entry
  split
  next value hvalue =>
    have hresult : '\n' ∉ Number.result value := Number.not_mem_result (by decide) (by decide) value
    simp [History.entry, htrim, hresult]
  next diagnostic hfault =>
    have hframe := (evaluate_eq_error_iff.mp hfault).1
    have hnotice :=
      (Frame.points_of_evaluate (Frame.standsIn_whole (normalize line)) hframe).not_mem_notice
    simp [htrim, hnotice]

/-! ## Batches -/

/-- What is printed for two files with a line feed between them is printed for one and then for the
other. -/
theorem output_append (first second : Text) :
    (ofText (first ++ '\n' :: second)).output =
      (ofText first).output ++ (ofText second).output := by
  rw [ofText_eq, ofText_eq, ofText_eq, written_append, List.flatMap_append]

/-- A batch reports faulty data if one of its lines cannot be evaluated. -/
theorem exitCode_eq_dataError_iff (text : Text) :
    (ofText text).exitCode = Outcome.dataError ↔
      ∃ line ∈ written text, (evaluate line).isOk = false := by
  rw [ofText_eq]
  dsimp only
  split
  next hall =>
    refine iff_of_false (by decide) ?_
    rintro ⟨line, hline, hfault⟩
    rw [List.all_eq_true.mp hall line hline] at hfault
    cases hfault
  next hsome =>
    refine iff_of_true rfl ?_
    simpa using hsome

/-- A batch that does not report faulty data is successful. -/
theorem exitCode_of_ne {text : Text} (hne : (ofText text).exitCode ≠ Outcome.dataError) :
    (ofText text).exitCode = 0 := by
  rw [ofText_eq] at hne ⊢
  dsimp only at hne ⊢
  split_ifs at hne ⊢ with hall
  · rfl
  · exact absurd rfl hne

/-- Two files with a line feed between them report faulty data if one of them does. -/
theorem exitCode_append (first second : Text) :
    (ofText (first ++ '\n' :: second)).exitCode = Outcome.dataError ↔
      (ofText first).exitCode = Outcome.dataError ∨
        (ofText second).exitCode = Outcome.dataError := by
  simp only [exitCode_eq_dataError_iff, written_append, List.mem_append, or_and_right, exists_or]

/-- A line alone is passed over if it is blank, and answered by its entry otherwise. -/
theorem ofText_of_line {line : Text} (hfeed : '\n' ∉ line) :
    ofText line =
      if Text.trim line = [] then ⟨[], 0⟩
      else ⟨Outcome.line (entry line),
        if (evaluate line).isOk then 0 else Outcome.dataError⟩ := by
  rw [ofText_eq]
  by_cases hblank : Text.trim line = []
  · rw [written_of_blank hfeed hblank, if_pos hblank]
    rfl
  · rw [written_of_line hfeed hblank, if_neg hblank, List.flatMap_singleton, List.all_cons,
      List.all_nil, Bool.and_true]

/-- A file with a valid encoding is read as the text that it encodes. -/
theorem ofFile_encode (text : Text) : ofFile (some (Text.encode text)) = ofText text := by
  rw [ofFile, Option.bind_some, Bytes.decode?_encode]

/-- What is no text is not read in parts either. -/
theorem ofFile_of_not_isText {content : Bytes} (hcontent : ¬ content.IsText) :
    ofFile (some content) = ⟨[], Outcome.failed⟩ := by
  rw [ofFile, Option.bind_some, Bytes.decode?_eq_none_iff.mpr hcontent]

end Batch

/-- A batch over two texts with a line feed between them prints what batches over these texts print,
one after the other, and fails if one of these batches does. It prints an entry for each line that
is not blank, in the order of the lines; the entry is a single line, the same that a batch over that
line alone prints. Nothing is printed for what is no text, wherever it ceases to be one. -/
theorem outcome_batch_lines {arguments : List Text} {file : Text}
    (harguments : Command.ofArguments? arguments = some (.batch file)) (input : Bytes) :
    let batch (content : Bytes) := Command.outcome arguments (fun _ => some content) input
    (∀ first second : Bytes, first.IsText → second.IsText →
      (batch (first ++ 10 :: second)).output = (batch first).output ++ (batch second).output ∧
      ((batch (first ++ 10 :: second)).exitCode = 65 ↔
        (batch first).exitCode = 65 ∨ (batch second).exitCode = 65) ∧
      ((batch (first ++ 10 :: second)).exitCode ≠ 65 →
        (batch (first ++ 10 :: second)).exitCode = 0)) ∧
    (∀ text : Text, (batch text.encode).output =
      (Batch.written text).flatMap fun line => Outcome.line (Batch.entry line)) ∧
    (∀ line : Text, '\n' ∉ line → '\n' ∉ Batch.entry line ∧
      batch line.encode =
        if Text.trim line = [] then ⟨[], 0⟩
        else ⟨Outcome.line (Batch.entry line), if (evaluate line).isOk then 0 else 65⟩) ∧
    (∀ content : Bytes, ¬ content.IsText → batch content = ⟨[], 1⟩) ∧
    ∀ first second : Bytes, ¬ first.IsText ∨ ¬ second.IsText →
      batch (first ++ 10 :: second) = ⟨[], 1⟩ := by
  intro batch
  have hbatch (content : Bytes) : batch content = Batch.ofFile (some content) := by
    simp only [batch, Command.outcome, harguments, Command.run]
  have htext (text : Text) : batch text.encode = Batch.ofText text := by
    rw [hbatch, Batch.ofFile_encode]
  have hinvalid (content : Bytes) (hcontent : ¬ content.IsText) : batch content = ⟨[], 1⟩ := by
    rw [hbatch, Batch.ofFile_of_not_isText hcontent]
    rfl
  refine ⟨?_, fun text => ?_, fun line hfeed => ⟨Batch.not_mem_entry hfeed, ?_⟩, hinvalid, ?_⟩
  · rintro _ _ ⟨first, rfl⟩ ⟨second, rfl⟩
    have hjoined : Text.encode first ++ 10 :: Text.encode second =
        Text.encode (first ++ '\n' :: second) :=
      (Bytes.encode_eq_append_feed_iff.mpr ⟨first, second, rfl, rfl, rfl⟩).symm
    rw [hjoined, htext, htext, htext]
    exact ⟨Batch.output_append first second, Batch.exitCode_append first second,
      Batch.exitCode_of_ne⟩
  · rw [htext, Batch.ofText_eq]
  · rw [htext, Batch.ofText_of_line hfeed]
    rfl
  · intro first second hparts
    refine hinvalid _ fun hjoined => ?_
    obtain ⟨hfirst, hsecond⟩ := Bytes.isText_append_feed_iff.mp hjoined
    exact hparts.elim (· hfirst) (· hsecond)

/-- Two files with blank lines, carriage returns and no line feed at their ends, joined, and a byte
that is no character on a line of its own behind them. -/
theorem outcome_batch_lines_sums :
    let first : Bytes := Text.encode "1+1\r\n \u2003\n1/0\r".toList
    let second : Bytes := Text.encode "\n 2*3".toList
    let batch (content : Bytes) :=
      Command.outcome ["batch".toList, "sums".toList] (fun _ => some content) []
    batch (first ++ 10 :: second) =
        ⟨"1+1 = 2\n1/0: division by zero is impossible\n2*3 = 6\n".toList, 65⟩ ∧
      ¬ Bytes.IsText [255] ∧ batch (first ++ 10 :: [255]) = ⟨[], 1⟩ := by
  intro first second batch
  have harguments : Command.ofArguments? ["batch".toList, "sums".toList] =
      some (.batch "sums".toList) := rfl
  obtain ⟨happend, -, -, -, hparts⟩ := outcome_batch_lines harguments []
  obtain ⟨houtput, hexit, -⟩ :=
    happend first second (Bytes.isText_encode _) (Bytes.isText_encode _)
  have hfirst : batch first =
      ⟨"1+1 = 2\n1/0: division by zero is impossible\n".toList, 65⟩ :=
    (Batch.ofFile_encode _).trans (by decide +kernel)
  have hsecond : batch second = ⟨"2*3 = 6\n".toList, 0⟩ :=
    (Batch.ofFile_encode _).trans (by decide +kernel)
  have hbyte : ¬ Bytes.IsText [255] := Bytes.decode?_eq_none_iff.mp (by decide +kernel)
  have hjoined : batch (first ++ 10 :: second) =
      ⟨(batch first).output ++ (batch second).output, 65⟩ := by
    rw [← houtput, ← hexit.mpr (.inl (congrArg Outcome.exitCode hfirst))]
  refine ⟨?_, hbyte, hparts _ _ (.inr hbyte)⟩
  rw [hjoined, hfirst, hsecond]
  rfl

end Surd
