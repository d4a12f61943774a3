import Surd.Session
import Surd.Proofs.Evaluation.Visits
import Surd.Proofs.Number.Result
import Surd.Proofs.Respelling

/-!
# The characters of texts with a value

Tokens are written with characters that keys type, and root signs. A text with a value consists of
tokens, down into the arguments of its roots, so without blank characters and with its roots in
letters it is accepted (`accepts_of_evaluate`), and as it stands it has no other characters but
blank ones and root signs (`isKey_of_evaluate`). The text of a finite number has only characters
that keys type.
-/

namespace Surd

open Front

/-- Digits and points are typed by keys. -/
theorem isKey_of_isNumeric {c : Char} (hc : isNumeric c = true) : isKey c = true := by
  rcases isNumeric_iff.mp hc with hc | rfl
  · rw [isKey, hc, Bool.true_or]
  · decide

/-- A number is written with characters that keys type. -/
theorem NumberText.isKey {allowed : Bool} {literal : Text} {value : Float}
    (h : NumberText allowed literal value) {c : Char} (hc : c ∈ literal) : isKey c = true := by
  rcases h.isNumeric_of_mem hc with hc | rfl | rfl
  · exact isKey_of_isNumeric hc
  · decide
  · decide

namespace Token

variable {token : Token}

/-- No token ends in a root sign. -/
theorem Spelled.getLast?_ne (h : token.Spelled) : ∀ c ∈ token.literal.getLast?, c ≠ '√' := by
  intro c hc
  by_cases hroot : ∃ body, token.kind = .root body
  · obtain ⟨body, hkind⟩ := hroot
    rw [(h.root hkind).1, List.getLast?_concat] at hc
    cases hc
    decide
  · rintro rfl
    exact h.not_mem_literal (fun body hkind => hroot ⟨body, hkind⟩) (List.mem_of_getLast? hc)

/-- Roots are spelled token by token. -/
theorem spellRoots_join {tokens : List Token} (hspelled : ∀ token ∈ tokens, token.Spelled) :
    spellRoots (join tokens) = tokens.flatMap fun token => spellRoots token.literal := by
  induction tokens with
  | nil => rfl
  | cons token tokens ih =>
    rw [List.forall_mem_cons] at hspelled
    rw [join_cons, spellRoots_append (.inl hspelled.1.getLast?_ne), ih hspelled.2,
      List.flatMap_cons]

/-- A token whose roots are in letters is written with characters that keys type, if that is so of
the argument of a root. -/
theorem Spelled.isKey (h : token.Spelled)
    (hbody : ∀ body, token.kind = .root body → ∀ c ∈ spellRoots body, Surd.isKey c = true) :
    ∀ c ∈ spellRoots token.literal, Surd.isKey c = true := by
  obtain ⟨lexeme, hkind, htext⟩ := h
  intro c hc
  rw [← htext] at hc
  cases lexeme with
  | leftParen | rightParen =>
    rw [List.mem_singleton.mp hc]
    decide
  | operator op =>
    cases op <;> (rw [List.mem_singleton.mp hc]; decide)
  | number literal =>
    have hplain : spellRoots literal.text = literal.text := spellRoots_of_not_mem fun hmem =>
      literal.numberText.ne_of_mem hmem (by decide) (by decide) (by decide) rfl
    rw [Lexeme.text, hplain] at hc
    exact literal.numberText.isKey hc
  | root body hbalanced =>
    have hclose : spellRoots (body ++ [')']) = spellRoots body ++ [')'] :=
      spellRoots_append (.inr fun c hc => by cases hc; decide)
    have hparts : spellRoots (Lexeme.root body hbalanced).text =
        's' :: (rootLetters ++ (spellRoots body ++ [')'])) := by
      rw [Lexeme.text, List.append_assoc, ← hclose]
      exact spellRoots_rootOpening [] (body ++ [')'])
    rw [hparts, ← List.cons_append, List.mem_append, List.mem_append] at hc
    rcases hc with hc | hc | hc
    · have hletters : ('s' :: rootLetters).all Surd.isKey = true := by decide
      exact List.all_eq_true.mp hletters c hc
    · exact hbody body hkind.symm c hc
    · rw [List.mem_singleton.mp hc]
      decide

end Token

/-- A frame with a value has no characters but those that keys type once its roots are in
letters. -/
theorem Frame.isKey_of_evaluate {frame : Frame} {value : Float}
    (hvalue : frame.evaluate = .ok value) : ∀ c ∈ spellRoots frame.text, Surd.isKey c = true := by
  induction frame using frame_induction generalizing value with
  | step frame ih =>
    obtain ⟨hsound, -, -⟩ := account_of_evaluate hvalue
    have htext : Token.join frame.scan.tokens = frame.text := Scanner.join_tokens hsound
    have hspelled : ∀ token ∈ frame.scan.tokens, token.Spelled := fun _ => Scanner.spelled_of_mem
    intro c hc
    rw [← htext, Token.spellRoots_join hspelled, List.mem_flatMap] at hc
    obtain ⟨token, htoken, hc⟩ := hc
    refine (hspelled token htoken).isKey (fun body hkind => ?_) c hc
    have hargument : ofRoot token body ∈ frame.arguments :=
      mem_arguments_iff.mpr ⟨token, htoken, body, hkind, rfl⟩
    obtain ⟨inner, hinner⟩ := exists_evaluate_of_mem_arguments ⟨value, hvalue⟩ hargument
    exact ih _ hargument hinner

/-- A text is accepted if it can be typed key by key. -/
theorem accepts_iff {text : Text} : accepts text = true ↔ ∀ c ∈ text, isKey c = true :=
  List.all_eq_true

/-- A text with a value is accepted once it has no blank characters and its roots are in letters. -/
theorem accepts_of_evaluate {text : Text} {value : Float} (hvalue : evaluate text = .ok value) :
    accepts (spellRoots (Text.squeeze text)) = true := by
  rw [← Text.spellRoots_normalize, accepts_iff]
  exact Frame.isKey_of_evaluate (evaluate_eq_ok_iff.mp hvalue)

/-- A text with a value has no characters but blank ones, those that keys type, and root signs. -/
theorem isKey_of_evaluate {text : Text} {value : Float} (hvalue : evaluate text = .ok value)
    {c : Char} (hc : c ∈ text) : isBlank c = true ∨ isKey c = true ∨ c = '√' := by
  by_cases hblank : isBlank c = true
  · exact .inl hblank
  by_cases hsign : c = '√'
  · exact .inr (.inr hsign)
  · have hsqueeze : c ∈ Text.squeeze text := List.mem_filter.mpr ⟨hc, by simp [hblank]⟩
    have haccepts := accepts_iff.mp (accepts_of_evaluate hvalue)
    exact .inr (.inl (haccepts c (mem_spellRoots hsqueeze hsign)))

/-- A finite result is written with characters that keys type. -/
theorem Number.isKey_of_mem_result {x : Float}
    (hfinite : Binary64.pattern x < Binary64.infinity) {c : Char} (hc : c ∈ result x) :
    isKey c = true := by
  obtain ⟨sign, body, htext, hsign, -, hbody⟩ := exists_result_eq hfinite
  rw [htext, List.mem_append] at hc
  rcases hc with hc | hc
  · rcases hsign with rfl | ⟨rfl, -⟩
    · cases hc
    · rw [List.mem_singleton.mp hc]
      decide
  · exact isKey_of_isNumeric (hbody c hc)

end Surd
