import Surd.Proofs.Alphabet
import Surd.Proofs.LastNumber
import Surd.Proofs.Number.Hundredth
import Surd.Proofs.Session.Run

/-!
# The filter of the buffer

Only texts that replace the whole buffer are checked for characters that no key types. All other
actions keep such characters out by themselves, as long as the keys have none of them and the
numbers that are written into the buffer are finite (`Session.accepts_run`).
-/

namespace Surd

/-- The percent key types a finite number with characters that keys type. -/
theorem accepts_percent {text : Text} (haccepts : accepts text = true)
    (hfinite : ∀ found ∈ LastNumber.find? text, ∀ number ∈ Number.read? found.number,
      Binary64.pattern number < Binary64.infinity) : accepts (percent text) = true := by
  unfold percent
  split
  · decide
  · split
    · exact haccepts
    next found hfound =>
      split
      · exact haccepts
      next number hread =>
        have hhundredth := Binary64.pattern_div_hundred_lt (hfinite found hfound number hread)
        obtain ⟨htext, -, -⟩ := LastNumber.find?_eq_some hfound
        rw [accepts_iff] at haccepts ⊢
        rw [htext] at haccepts
        intro c hc
        simp only [LastNumber.scaled, List.mem_append] at hc
        rcases hc with ((hc | hc) | hc) | hc
        · exact haccepts c (List.mem_append_left _ hc)
        · split at hc
          · rw [List.mem_singleton.mp hc]
            decide
          · cases hc
        · exact Number.isKey_of_mem_result hhundredth hc
        · exact haccepts c (List.mem_append_right _ (List.mem_append_right _ hc))

namespace InputBuffer

variable {buffer : InputBuffer}

/-- A key that is accepted keeps the buffer accepted, whether it is appended or starts it anew. -/
theorem accepts_append {key : Text} (hbuffer : accepts buffer.text = true)
    (hkey : accepts key = true) : accepts (buffer.append key).text = true := by
  unfold append
  split
  · exact hkey
  · rw [accepts, List.all_append, Bool.and_eq_true]
    exact ⟨hbuffer, hkey⟩

/-- Taking characters back keeps the buffer accepted. -/
theorem accepts_backspace (hbuffer : accepts buffer.text = true) :
    accepts buffer.backspace.text = true := by
  unfold backspace
  split
  · rw [accepts_iff] at hbuffer ⊢
    exact fun c hc => hbuffer c (List.mem_of_mem_dropLast hc)
  · decide

/-- A text that is refused leaves the buffer as it is. -/
theorem setText_of_not_accepts {text : Text} (hrefused : (buffer.setText text).1 = false) :
    (buffer.setText text).2 = buffer := by
  unfold setText at hrefused ⊢
  split at hrefused
  · cases hrefused
  next hno => rw [if_neg hno]

/-- Setting a text keeps the buffer accepted: a text that is not is refused. -/
theorem accepts_setText (hbuffer : accepts buffer.text = true) (text : Text) :
    accepts (buffer.setText text).2.text = true := by
  unfold setText
  split
  next htext => exact htext
  next => exact hbuffer

end InputBuffer

namespace Session

/-- What lets the buffer have only characters that keys type: the keys have no others, and the
numbers that the percent key rewrites and that a submission gives are finite. -/
def StaysTyped (session : Session) : Action → Prop
  | .append key => accepts key = true
  | .percent => ∀ found ∈ LastNumber.find? session.input.text,
      ∀ number ∈ Number.read? found.number, Binary64.pattern number < Binary64.infinity
  | .submit => ∀ value ∈ session.submit.1.toOption, Binary64.pattern value < Binary64.infinity
  | .backspace | .clear | .setText _ => True

/-- Whether an action keeps to what can be typed is decided by computing what it puts in. -/
instance decidableStaysTyped (session : Session) :
    (action : Action) → Decidable (session.StaysTyped action)
  | .append key => inferInstanceAs (Decidable (accepts key = true))
  | .percent => inferInstanceAs (Decidable (∀ found ∈ LastNumber.find? session.input.text,
      ∀ number ∈ Number.read? found.number, Binary64.pattern number < Binary64.infinity))
  | .submit => inferInstanceAs
      (Decidable (∀ value ∈ session.submit.1.toOption, Binary64.pattern value < Binary64.infinity))
  | .backspace | .clear | .setText _ => inferInstanceAs (Decidable True)

/-- Every action keeps characters that no key types out of the buffer. -/
theorem accepts_perform {session : Session} {action : Action}
    (haccepts : accepts session.input.text = true) (htyped : session.StaysTyped action) :
    accepts (session.perform action).2.input.text = true := by
  cases action with
  | append key => exact InputBuffer.accepts_append haccepts htyped
  | backspace => exact InputBuffer.accepts_backspace haccepts
  | clear => exact (by decide : accepts InputBuffer.initial.text = true)
  | setText text => exact InputBuffer.accepts_setText haccepts text
  | percent => exact accepts_percent haccepts htyped
  | submit =>
    cases hvalue : evaluate session.input.text with
    | ok value =>
      have hsubmit := submit_of_ok hvalue
      have hfinite := htyped value (by rw [hsubmit]; rfl)
      simp only [perform, hsubmit]
      exact accepts_iff.mpr fun c hc => Number.isKey_of_mem_result hfinite hc
    | error diagnostic =>
      simp only [perform, submit_of_error hvalue]
      exact haccepts

/-- After every part of a run that types only what keys type, and writes finite numbers only, the
buffer has no other characters. A text that is refused changes nothing. -/
theorem accepts_run {actions : List Action} (hruns : initial.Runs StaysTyped actions) :
    (∀ first, first <+: actions → accepts (initial.run first).input.text = true) ∧
      ∀ (session : Session) (text : Text),
        (session.perform (.setText text)).1 = .accepted false →
          (session.perform (.setText text)).2 = session := by
  constructor
  · rintro first ⟨rest, rfl⟩
    exact @holds_run StaysTyped (fun session => accepts session.input.text = true)
      (fun _ _ => accepts_perform) _ _ (by decide) hruns.of_append
  · intro session text hrefused
    have hinput := InputBuffer.setText_of_not_accepts (Answer.accepted.inj hrefused)
    simp only [perform, hinput]

/-- A run in which a text is refused, and the percent key is pressed on a sum and on a text that
ends in an operator. -/
theorem accepts_run_percent :
    initial.Runs StaysTyped [.setText "2x".toList, .append "50+20".toList, .percent, .submit,
        .append "/4".toList, .backspace, .percent] ∧
      accepts (initial.run [.setText "2x".toList, .append "50+20".toList, .percent, .submit,
        .append "/4".toList, .backspace, .percent]).input.text = true ∧
      (initial.perform (.setText "2x".toList)).2 = initial := by
  have hruns : initial.Runs StaysTyped [.setText "2x".toList, .append "50+20".toList, .percent,
      .submit, .append "/4".toList, .backspace, .percent] := by decide +kernel
  obtain ⟨haccepts, hrefused⟩ := accepts_run hruns
  exact ⟨hruns, haccepts _ List.prefix_rfl, hrefused initial "2x".toList (by decide)⟩

end Session

end Surd
