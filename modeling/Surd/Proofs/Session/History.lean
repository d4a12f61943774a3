import Surd.Proofs.Alphabet
import Surd.Proofs.Resubmission

/-!
# The history of a session

A history only grows: an action adds a line exactly if it is a submission that gives a value
(`Session.history_run`). Neither an expression with a value nor a result has an equality sign in it,
so the one that joins them is the only one in a line, and the line can be read back in one way only
(`History.isFaithful_entry`).
-/

namespace Surd

/-- A result has no other characters than those that keys type and those of the words for what is
not finite. -/
theorem Number.not_mem_result {c : Char} (hkey : isKey c = false)
    (hwords : c ∉ "NaN".toList ∧ c ∉ "inf".toList ∧ c ∉ "-inf".toList) (x : Float) :
    c ∉ result x := by
  intro hmem
  by_cases hfinite : Binary64.pattern x < Binary64.infinity
  · rw [isKey_of_mem_result hfinite hmem] at hkey
    cases hkey
  · rcases result_of_not_finite hfinite with h | h | h
    · exact hwords.1 (h ▸ hmem)
    · exact hwords.2.1 (h ▸ hmem)
    · exact hwords.2.2 (h ▸ hmem)

/-- No text with a value has an equality sign in it. -/
theorem not_mem_of_evaluate {text : Text} {value : Float} (hvalue : evaluate text = .ok value) :
    '=' ∉ text := by
  intro hmem
  rcases isKey_of_evaluate hvalue hmem with h | h | h
  · exact absurd h (by decide)
  · exact absurd h (by decide)
  · exact absurd h (by decide)

namespace History

/-- A line that can be read back: it has a single equality sign, and it is cut in one way only into
an expression with a value and the result of that value. -/
structure IsFaithful (line : Text) : Prop where
  count_eq_one : line.count '=' = 1
  exists_only : ∃ expression value, evaluate expression = .ok value ∧
    ∀ left right, line = entry left right ↔ left = expression ∧ right = Number.result value

variable {expression result : Text}

/-- A line has one equality sign more than its two sides. -/
theorem count_entry (expression result : Text) :
    (entry expression result).count '=' = expression.count '=' + result.count '=' + 1 := by
  simp only [entry, List.count_append]
  have hsign : [' ', '=', ' '].count '=' = 1 := by decide
  omega

/-- A line whose sides have no equality sign is cut in one way only. -/
theorem entry_eq_entry_iff (hexpression : '=' ∉ expression) (hresult : '=' ∉ result)
    {left right : Text} :
    entry expression result = entry left right ↔ left = expression ∧ right = result := by
  have hcut (expression result : Text) : entry expression result =
      (expression ++ [' ']) ++ '=' :: (' ' :: result) := by simp [entry]
  have hbefore : '=' ∉ expression ++ [' '] := by simp [hexpression]
  have hbehind : '=' ∉ ' ' :: result := by simp [hresult]
  rw [hcut, hcut, List.append_cons_inj_of_notMem hbefore hbehind]
  simp [eq_comm]

/-- The line of a text with a value and its result can be read back. -/
theorem isFaithful_entry {value : Float} (hvalue : evaluate expression = .ok value) :
    IsFaithful (entry expression (Number.result value)) := by
  have hexpression := not_mem_of_evaluate hvalue
  have hresult : '=' ∉ Number.result value := Number.not_mem_result (by decide) (by decide) value
  refine ⟨?_, expression, value, hvalue, fun left right => entry_eq_entry_iff hexpression hresult⟩
  rw [count_entry, List.count_eq_zero.mpr hexpression, List.count_eq_zero.mpr hresult]

end History

namespace Session

/-- An action adds a line exactly if it is a submission that gives a value; the line is that of the
buffer and its result. A submission that gives no value changes nothing. -/
theorem history_perform (session : Session) (action : Action) :
    let answer := (session.perform action).1
    let after := (session.perform action).2
    (after.history.entries ≠ session.history.entries ↔
        action = .submit ∧ ∃ value, answer = .value value) ∧
      (∀ value, action = .submit → answer = .value value →
        evaluate session.input.text = .ok value ∧
          after.history = session.history.push session.input.text (Number.result value)) ∧
      (action = .submit → (∀ value, answer ≠ .value value) → after = session) := by
  intro answer after
  have hperforms : session.Performs action answer after := session.performs action
  generalize answer = answer, after = after at hperforms ⊢
  cases hperforms with
  | @value value hvalue =>
    refine ⟨⟨fun _ => ⟨rfl, value, rfl⟩, fun _ => by simp [History.push]⟩, ?_, ?_⟩
    · rintro value - h
      cases h
      exact ⟨hvalue, rfl⟩
    · exact fun _ hnone => absurd rfl (hnone value)
  | notice => simp
  | edit input haction => simp [haction]

/-- Every action keeps the lines of the history. -/
theorem prefix_perform (session : Session) (action : Action) :
    session.history.entries <+: (session.perform action).2.history.entries := by
  obtain ⟨hadds, hline, -⟩ := session.history_perform action
  by_cases hsame : (session.perform action).2.history.entries = session.history.entries
  · rw [hsame]
  · obtain ⟨haction, value, hanswer⟩ := hadds.mp hsame
    rw [(hline value haction hanswer).2]
    exact List.prefix_append _ _

/-- Over every run, lines are only added to the history. -/
theorem prefix_run (session : Session) (actions : List Action) :
    session.history.entries <+: (session.run actions).history.entries := by
  induction actions generalizing session with
  | nil => exact List.prefix_rfl
  | cons action actions ih => exact (session.prefix_perform action).trans (ih _)

/-- Lines that can be read back stay so, and those that an action adds can be read back. -/
theorem isFaithful_perform {session : Session} (action : Action)
    (hfaithful : ∀ line ∈ session.history.entries, History.IsFaithful line) :
    ∀ line ∈ (session.perform action).2.history.entries, History.IsFaithful line := by
  obtain ⟨hadds, hline, -⟩ := session.history_perform action
  by_cases hsame : (session.perform action).2.history.entries = session.history.entries
  · rwa [hsame]
  · obtain ⟨haction, value, hanswer⟩ := hadds.mp hsame
    obtain ⟨hvalue, hpush⟩ := hline value haction hanswer
    intro line hmem
    rw [hpush, History.push, List.mem_append, List.mem_singleton] at hmem
    rcases hmem with hmem | rfl
    · exact hfaithful line hmem
    · exact History.isFaithful_entry hvalue

/-- After every run all lines can be read back. -/
theorem isFaithful_run (actions : List Action) :
    ∀ line ∈ (initial.run actions).history.entries, History.IsFaithful line := by
  have hruns : initial.Runs (fun _ _ => True) actions := runs_of_forall (fun _ _ => trivial) _ _
  refine @holds_run (fun _ _ => True)
    (fun session => ∀ line ∈ session.history.entries, History.IsFaithful line)
    (fun _ action hfaithful _ => isFaithful_perform action hfaithful) _ _ ?_ hruns
  intro line hline
  cases hline

/-- Wherever a run has led, the lines so far stay at the front of the history whatever comes later,
and all of them can be read back. An action adds a line exactly if it is a submission that gives a
value, and then one line; a submission that gives none changes neither the buffer nor the
history. -/
theorem history_run (actions : List Action) (action : Action) :
    let before := initial.run actions
    let answer := (before.perform action).1
    let after := (before.perform action).2
    (∀ later, before.history.entries <+: (before.run later).history.entries) ∧
      (after.history.entries ≠ before.history.entries ↔
        action = .submit ∧ ∃ value, answer = .value value) ∧
      (∀ value, action = .submit → answer = .value value → after.history.entries =
        before.history.entries ++ [History.entry before.input.text (Number.result value)]) ∧
      (action = .submit → (∀ value, answer ≠ .value value) → after = before) ∧
      ∀ line ∈ before.history.entries, History.IsFaithful line := by
  intro before answer after
  obtain ⟨hadds, hline, hfails⟩ := before.history_perform action
  refine ⟨before.prefix_run, hadds, fun value haction hanswer => ?_, hfails, ?_⟩
  · exact congrArg History.entries (hline value haction hanswer).2
  · exact isFaithful_run actions

/-- A product that is continued from the result of a sum adds its line to that of the sum. The
division by zero between them adds none. -/
theorem history_run_continued :
    let before := initial.run [.setText "1+2*3".toList, .submit, .append "/0".toList, .submit,
      .backspace, .backspace, .append "*2".toList]
    before.history.entries = ["1+2*3 = 7".toList] ∧
      (before.perform .submit).2.history.entries =
        ["1+2*3 = 7".toList, "7*2 = 14".toList] := by
  intro before
  have hbefore : before.history.entries = ["1+2*3 = 7".toList] := by decide +kernel
  have hanswer : (before.perform .submit).1 = .value 14 := by decide +kernel
  have hline : History.entry before.input.text (Number.result 14) = "7*2 = 14".toList := by
    decide +kernel
  obtain ⟨-, -, hadds, -⟩ := history_run [.setText "1+2*3".toList, .submit, .append "/0".toList,
    .submit, .backspace, .backspace, .append "*2".toList] .submit
  refine ⟨hbefore, ?_⟩
  rw [hadds 14 rfl hanswer, hbefore, hline]
  rfl

end Session

end Surd
