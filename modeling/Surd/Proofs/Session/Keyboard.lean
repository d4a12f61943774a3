import Surd.Proofs.Alphabet
import Surd.Proofs.Diagnostics

/-!
# The keys and the tokens

The characters that keys type are listed once for the buffer and once more, one token at a time, for
the scanner. The two lists fit together (`evaluate_alphabet`): every text with a value can be typed,
with its roots in letters, and what is typed never has a root sign without a parenthesis, nor any
character that begins no token but a letter of `sqrt` and the percent sign.
-/

namespace Surd

/-- Whether a cause can lie in a text of keys. A root sign is not typed, and of the characters that
are, only these begin no token. -/
def Cause.IsTypable : Cause → Prop
  | missingRootParen => False
  | unexpectedCharacter c => c ∈ ['s', 'q', 'r', 't', '%']
  | _ => True

/-- A character that is typed and begins no token is a letter of `sqrt` or a percent sign. -/
theorem mem_of_isKey {c : Char} (hkey : isKey c = true) (hnumeric : Front.isNumeric c = false)
    (hplain : c ∉ ['+', '-', '*', '/', '^', '(', ')', '√']) : c ∈ ['s', 'q', 'r', 't', '%'] := by
  rw [Front.isNumeric, Bool.or_eq_false_iff, decide_eq_false_iff_not] at hnumeric
  rw [isKey, hnumeric.1, Bool.false_or, List.contains_iff_mem] at hkey
  have hpoint := hnumeric.2
  simp only [List.mem_cons, List.not_mem_nil, or_false] at hkey hplain ⊢
  tauto

/-- What a fault in a text of keys points at has been typed, apart from the signs of roots that were
typed in letters with their parentheses. -/
theorem Fault.PointsInto.isTypable {text : Text} {fault : Fault}
    (h : fault.PointsInto (normalize text)) (haccepts : accepts text = true) :
    fault.cause.IsTypable := by
  rw [accepts_iff] at haccepts
  have hsign : '√' ∉ Text.squeeze text := fun hmem =>
    absurd (haccepts '√' (List.mem_filter.mp hmem).1) (by decide)
  obtain ⟨before, piece, after, hsource, -, hdescribes⟩ := h
  cases hcause : fault.cause with
  | missingRootParen =>
    rw [hcause] at hdescribes
    obtain ⟨rfl, hopen⟩ := hdescribes
    rw [List.append_assoc] at hsource
    exact hopen (head?_behind_root_sign hsign hsource)
  | unexpectedCharacter c =>
    rw [hcause] at hdescribes
    obtain ⟨rfl, hnumeric, hplain⟩ := hdescribes
    have hmem : c ∈ normalize text := by
      rw [hsource]
      simp
    rcases mem_of_mem_markRoots hmem with hmem | rfl
    · exact mem_of_isKey (haccepts c (List.mem_filter.mp hmem).1) hnumeric hplain
    · exact absurd hplain (by decide)
  | _ => trivial

/-- The keys suffice for every text with a value: without blank characters and with its roots in
letters it is accepted, and has the value still. In a text of keys no root sign lacks its
parenthesis, and the characters that begin no token are letters of `sqrt` and percent signs, also in
the roots of the text, at any depth. -/
theorem evaluate_alphabet (text : Text) :
    (∀ value, evaluate text = .ok value →
      accepts (spellRoots (Text.squeeze text)) = true ∧
        evaluate (spellRoots (Text.squeeze text)) = .ok value) ∧
    (accepts text = true →
      (∀ diagnostic, evaluate text = .error diagnostic → diagnostic.cause.IsTypable) ∧
      ∀ frame ∈ (Frame.whole (normalize text)).frames, ∀ fault,
        frame.evaluate = .error fault → fault.cause.IsTypable) := by
  have htypable (haccepts : accepts text = true) (frame : Frame)
      (hmem : frame ∈ (Frame.whole (normalize text)).frames) (fault : Fault)
      (hfault : frame.evaluate = .error fault) : fault.cause.IsTypable := by
    have hstands := (Frame.standsIn_whole (normalize text)).of_mem_frames hmem
    exact (Frame.points_of_evaluate hstands hfault).isTypable haccepts
  refine ⟨fun value hvalue => ⟨accepts_of_evaluate hvalue, ?_⟩, fun haccepts => ⟨?_, ?_⟩⟩
  · rw [evaluate_spellRoots, hvalue]
  · intro diagnostic hfault
    exact htypable haccepts _ (Frame.self_mem_frames _) _ (evaluate_eq_error_iff.mp hfault).1
  · exact htypable haccepts

/-- A product that no keyboard types as it is written; and a letter in a root of a root, which the
keys can put there. -/
theorem evaluate_alphabet_root :
    evaluate "2 * √(4)".toList = .ok 4 ∧ accepts "2 * √(4)".toList = false ∧
      accepts "2*sqrt(4)".toList = true ∧ evaluate "2*sqrt(4)".toList = .ok 4 ∧
      accepts "sqrt(1+sqrt(q))".toList = true ∧
      evaluate "sqrt(1+sqrt(q))".toList =
        .error ⟨⟨.unexpectedCharacter 'q', ⟨10, 11⟩⟩, "√(1+√(q))".toList⟩ ∧
      (Cause.unexpectedCharacter 'q').IsTypable := by
  have hvalue : evaluate "2 * √(4)".toList = .ok 4 := by decide +kernel
  have hfault : evaluate "sqrt(1+sqrt(q))".toList =
      .error ⟨⟨.unexpectedCharacter 'q', ⟨10, 11⟩⟩, "√(1+√(q))".toList⟩ := by decide +kernel
  have haccepts : accepts "sqrt(1+sqrt(q))".toList = true := by decide
  obtain ⟨htyped, hsame⟩ := (evaluate_alphabet "2 * √(4)".toList).1 4 hvalue
  have htypable := ((evaluate_alphabet "sqrt(1+sqrt(q))".toList).2 haccepts).1 _ hfault
  exact ⟨hvalue, by decide, htyped, hsame, haccepts, hfault, htypable⟩

end Surd
