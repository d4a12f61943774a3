import Surd.Token.Sequence
import Surd.Proofs.Literal

/-!
# Every token is a lexeme

Whatever the scanner yields as a token is spelled as a lexeme with the same meaning
(`Front.exists_lexeme`): a number as some literal, a root with a balanced argument.
-/

namespace Surd.Front

variable {previous : Option Char} {c : Char} {text : Text} {kind : Token.Kind}

/-- The number after a sign is read from the characters that follow. -/
theorem read?_of_sign {sign body : Text} {value : Float} (hsign : sign = [] ∨ sign = ['-'])
    (hbody : ∀ c ∈ body, isNumeric c = true) (hread : Number.read? (sign ++ body) = some value) :
    ∃ decimal, Decimal.ofText? body = some decimal := by
  rcases hsign with rfl | rfl
  · unfold Number.read? at hread
    split at hread
    next hsame =>
      exact absurd (hbody '-' (by rw [← List.nil_append body, hsame]; simp)) (by decide)
    next hsame =>
      exact absurd (hbody '+' (by rw [← List.nil_append body, hsame]; simp)) (by decide)
    next =>
      obtain ⟨decimal, hdecimal, -⟩ := Option.map_eq_some_iff.mp hread
      exact ⟨decimal, hdecimal⟩
  · obtain ⟨decimal, hdecimal, -⟩ := Option.map_eq_some_iff.mp hread
    exact ⟨decimal, hdecimal⟩

/-- A number that is read is spelled as a literal. -/
theorem exists_lexeme_of_number {sign : Text} (hsign : sign = [] ∨ sign = ['-'])
    (hread : (number sign text).reading = .ok kind) :
    ∃ lexeme : Lexeme, lexeme.kind = kind ∧ lexeme.text = (number sign text).literal := by
  have hbody : ∀ c ∈ text.takeWhile isNumeric, isNumeric c = true := fun c hc =>
    List.mem_takeWhile_imp hc
  cases hvalue : Number.read? (sign ++ text.takeWhile isNumeric) with
  | none =>
    simp only [number, ofLiteral, hvalue] at hread
    cases hread
  | some value =>
    obtain ⟨decimal, hdecimal⟩ := read?_of_sign hsign hbody hvalue
    obtain ⟨negative, hnegative⟩ : ∃ negative : Bool, sign = if negative then ['-'] else [] := by
      rcases hsign with rfl | rfl
      · exact ⟨false, rfl⟩
      · exact ⟨true, rfl⟩
    -- both spellings have the value that the characters before a percent sign are read as
    have hliteral (percent : Bool) : ∃ literal : Literal,
        literal.unscaledText = sign ++ text.takeWhile isNumeric ∧ literal.percent = percent ∧
          literal.unscaled = value := by
      obtain ⟨literal, hsame, hpercent, htext⟩ :=
        Literal.exists_bodyText hdecimal negative percent
      have hunscaled : literal.unscaledText = sign ++ text.takeWhile isNumeric := by
        rw [Literal.unscaledText_eq, Literal.signText, hsame, htext, hnegative]
      have hsome := literal.read?_unscaledText
      rw [hunscaled, hvalue] at hsome
      exact ⟨literal, hunscaled, hpercent, (Option.some.inj hsome).symm⟩
    by_cases hpercent : (text.dropWhile isNumeric).head? = some '%'
    · obtain ⟨rest, hrest⟩ := List.head?_eq_some_iff.mp hpercent
      obtain ⟨literal, htext, hpercent, hunscaled⟩ := hliteral true
      rw [number, hrest, ofLiteral_percent hvalue] at hread ⊢
      cases hread
      refine ⟨.number literal, ?_, ?_⟩
      · simp only [Lexeme.kind, Literal.value, hpercent, hunscaled, if_true]
      · simp only [Lexeme.text, Literal.text, hpercent, htext, if_true]
    · obtain ⟨literal, htext, hplain, hunscaled⟩ := hliteral false
      rw [number, ofLiteral_plain hvalue hpercent] at hread ⊢
      cases hread
      refine ⟨.number literal, ?_, ?_⟩
      · simp [Lexeme.kind, Literal.value, hplain, hunscaled]
      · simp [Lexeme.text, Literal.text, hplain, htext]

/-- A token is spelled as some lexeme that means the same. -/
theorem exists_lexeme (hread : (read previous c text).reading = .ok kind) :
    ∃ lexeme : Lexeme, lexeme.kind = kind ∧ lexeme.text = (read previous c text).literal := by
  unfold read at hread ⊢
  by_cases hopen : c = '('
  · simp only [if_pos hopen] at hread ⊢
    cases hread
    exact ⟨.leftParen, rfl, by rw [hopen]; rfl⟩
  simp only [if_neg hopen] at hread ⊢
  by_cases hclose : c = ')'
  · simp only [if_pos hclose] at hread ⊢
    cases hread
    exact ⟨.rightParen, rfl, by rw [hclose]; rfl⟩
  simp only [if_neg hclose] at hread ⊢
  by_cases hsign : c = '-' ∧ signAllowed previous = true
  · simp only [if_pos hsign] at hread ⊢
    exact exists_lexeme_of_number (.inr (by rw [hsign.1])) hread
  simp only [if_neg hsign] at hread ⊢
  by_cases hnumeric : isNumeric c = true
  · simp only [if_pos hnumeric] at hread ⊢
    exact exists_lexeme_of_number (.inl rfl) hread
  simp only [if_neg hnumeric] at hread ⊢
  by_cases hroot : c = '√'
  · simp only [if_pos hroot] at hread ⊢
    unfold root at hread ⊢
    split at hread
    next inner =>
      split at hread
      next body rest hsplit =>
        cases hread
        refine ⟨.root body (splitClose_eq_some_iff.mp hsplit).2, rfl, ?_⟩
        simp [*, Lexeme.text, Token.rootOpening]
      next => cases hread
    next => cases hread
  simp only [if_neg hroot] at hread ⊢
  cases hsymbol : Operator.ofSymbol? c with
  | none =>
    rw [hsymbol] at hread
    cases hread
  | some op =>
    rw [hsymbol] at hread
    cases hread
    exact ⟨.operator op, rfl, by rw [Lexeme.text, Operator.ofSymbol?_eq_some_iff.mp hsymbol]⟩

end Surd.Front
