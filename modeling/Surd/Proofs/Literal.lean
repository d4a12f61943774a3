import Surd.Literal
import Surd.Proofs.Token.Reading

/-!
# How literals are read

The characters of a literal before its percent sign are read as the number nearest to it
(`Literal.read?_unscaledText`), so that the whole of it is the text of a number with the value of
the literal (`Literal.numberText`). Whatever is read as a decimal stands between the signs of some
literal (`Literal.exists_bodyText`).
-/

namespace Surd

namespace Literal

open Front

/-- A sequence of digits is written in digits. -/
theorem isDigit_of_mem_digitsText {digits : List (Fin 10)} {c : Char}
    (hc : c ∈ digitsText digits) : c.isDigit = true := by
  have hdigit : ∀ digit : Fin 10, (Nat.digitChar digit.val).isDigit = true := by decide
  obtain ⟨digit, -, rfl⟩ := List.mem_map.mp hc
  exact hdigit digit

/-- The characters of digits stand for the same number as the digits. -/
theorem ofDigitChars_digitsText (digits : List (Fin 10)) :
    Nat.ofDigitChars 10 (digitsText digits) 0 = digitsValue digits := by
  have hdigit : ∀ digit : Fin 10, (Nat.digitChar digit.val).toNat - '0'.toNat = digit.val := by
    decide
  suffices h : ∀ n, Nat.ofDigitChars 10 (digitsText digits) n =
      digits.foldl (fun n digit => 10 * n + digit.val) n from h 0
  induction digits with
  | nil => exact fun n => rfl
  | cons digit digits ih =>
    intro n
    have hcons := @Nat.ofDigitChars_cons 10 (Nat.digitChar digit.val) (digitsText digits) n
    rw [hdigit] at hcons
    exact hcons.trans (ih _)

/-- The characters of a literal between its signs. -/
def bodyText (literal : Literal) : Text :=
  digitsText literal.whole ++
    match literal.part with
    | none => []
    | some part => '.' :: digitsText part

/-- The characters between the signs of a literal are read as its decimal. -/
theorem ofText?_bodyText (literal : Literal) :
    Decimal.ofText? literal.bodyText = some literal.decimal := by
  obtain ⟨negative, whole, part, percent, hdigit⟩ := literal
  have hwhole : ∀ c ∈ digitsText whole, c.isDigit = true := fun c hc =>
    isDigit_of_mem_digitsText hc
  cases part with
  | none =>
    have hnil : digitsText whole ≠ [] := by
      intro hempty
      rw [Option.getD_none, List.append_nil] at hdigit
      exact hdigit (List.map_eq_nil_iff.mp hempty)
    simp [Decimal.ofText?, bodyText, decimal, List.takeWhile_eq_self_iff.mpr hwhole,
      List.dropWhile_eq_nil_iff.mpr hwhole, hnil, ofDigitChars_digitsText]
  | some part =>
    have hpart : (digitsText part).all Char.isDigit = true :=
      List.all_eq_true.mpr fun c hc => isDigit_of_mem_digitsText hc
    have hsome : digitsText whole ++ digitsText part ≠ [] := by
      intro hempty
      rw [digitsText, digitsText, ← List.map_append] at hempty
      exact hdigit (List.map_eq_nil_iff.mp hempty)
    have hvalue : Nat.ofDigitChars 10 (digitsText whole ++ digitsText part) 0 =
        digitsValue (whole ++ part) := by
      rw [← ofDigitChars_digitsText, digitsText, digitsText, digitsText, List.map_append]
    have hlength : (digitsText part).length = part.length := List.length_map ..
    have hdot : Char.isDigit '.' = false := by decide
    have htake : (digitsText whole ++ '.' :: digitsText part).takeWhile Char.isDigit =
        digitsText whole := by
      rw [List.takeWhile_append_of_pos hwhole]
      simp [hdot]
    have hdrop : (digitsText whole ++ '.' :: digitsText part).dropWhile Char.isDigit =
        '.' :: digitsText part := by
      rw [List.dropWhile_append_of_pos hwhole]
      simp [hdot]
    simp only [Decimal.ofText?, bodyText, decimal, htake, hdrop]
    rw [if_pos ⟨hpart, hsome⟩, hvalue, hlength]
    rfl

/-- Between the signs of a literal there are digits and points only. -/
theorem isNumeric_of_mem_bodyText {literal : Literal} {c : Char} (hc : c ∈ literal.bodyText) :
    isNumeric c = true := by
  have hdigits {digits : List (Fin 10)} (hmem : c ∈ digitsText digits) : isNumeric c = true := by
    simp [isNumeric, isDigit_of_mem_digitsText hmem]
  rw [bodyText, List.mem_append] at hc
  rcases hc with hc | hc
  · exact hdigits hc
  · split at hc
    · cases hc
    · rcases List.mem_cons.mp hc with rfl | hc
      · decide
      · exact hdigits hc

/-- A literal has at least one digit, so its body is not empty. -/
theorem bodyText_ne_nil (literal : Literal) : literal.bodyText ≠ [] := by
  intro hempty
  have hread := literal.ofText?_bodyText
  rw [hempty] at hread
  cases hread

/-- The sign of a literal, as it is written. -/
def signText (literal : Literal) : Text := if literal.negative then ['-'] else []

/-- Without its percent sign a literal is its sign and its body. -/
theorem unscaledText_eq (literal : Literal) :
    literal.unscaledText = literal.signText ++ literal.bodyText := by
  rw [unscaledText, signText, List.append_assoc]
  rfl

/-- A literal is its sign, its body and its percent sign if it has one. -/
theorem text_eq (literal : Literal) :
    literal.signText ++ literal.bodyText ++ (if literal.percent then ['%'] else []) =
      literal.text := by
  rw [text, unscaledText_eq]

/-- A literal before its percent sign is read as the number nearest to it. -/
theorem read?_unscaledText (literal : Literal) :
    Number.read? literal.unscaledText = some literal.unscaled := by
  have hread := literal.ofText?_bodyText
  obtain ⟨c, body, hbody⟩ := List.exists_cons_of_ne_nil literal.bodyText_ne_nil
  have hnumeric : isNumeric c = true := isNumeric_of_mem_bodyText (by rw [hbody]; simp)
  rw [unscaledText_eq, signText, unscaled]
  cases literal.negative with
  | true => simp [Number.read?, hread]
  | false =>
    rw [hbody] at hread ⊢
    rw [if_neg Bool.false_ne_true, List.nil_append, Number.read?_of_isNumeric hnumeric, hread,
      Option.map_some]

/-- Where it may have the sign that it has, the text of a literal is that of a number. -/
theorem numberText_of_negative {allowed : Bool} (literal : Literal)
    (hallowed : literal.negative = true → allowed = true) :
    NumberText allowed literal.text literal.value := by
  have hsign : literal.signText = [] ∨ literal.signText = ['-'] ∧ allowed = true := by
    rw [signText]
    split
    next hnegative => exact .inr ⟨rfl, hallowed hnegative⟩
    next => exact .inl rfl
  have hread := literal.read?_unscaledText
  rw [unscaledText_eq] at hread
  rw [← literal.text_eq]
  exact .intro literal.percent hsign literal.bodyText_ne_nil
    (fun _ => isNumeric_of_mem_bodyText) hread

/-- Where a sign is allowed, the text of a literal is that of a number. -/
theorem numberText (literal : Literal) : NumberText true literal.text literal.value :=
  literal.numberText_of_negative fun _ => rfl

/-- A digit is the character of a number below ten. -/
theorem exists_digitChar {c : Char} (hc : c.isDigit = true) :
    ∃ digit : Fin 10, Nat.digitChar digit.val = c := by
  have hall : ∀ n < 10, (Nat.digitChar n).toNat = 48 + n := by decide
  simp only [Char.isDigit, Bool.and_eq_true, decide_eq_true_eq] at hc
  obtain ⟨hlow, hhigh⟩ := hc
  have hlow : 48 ≤ c.toNat := hlow
  have hhigh : c.toNat ≤ 57 := hhigh
  refine ⟨⟨c.toNat - 48, by omega⟩, ?_⟩
  apply Char.toNat_inj.mp
  change (Nat.digitChar (c.toNat - 48)).toNat = c.toNat
  rw [hall _ (by omega)]
  omega

/-- A text of digits is that of some digits. -/
theorem exists_digitsText {text : Text} (hdigits : ∀ c ∈ text, c.isDigit = true) :
    ∃ digits, digitsText digits = text := by
  induction text with
  | nil => exact ⟨[], rfl⟩
  | cons c text ih =>
    obtain ⟨digit, hdigit⟩ := exists_digitChar (hdigits c List.mem_cons_self)
    obtain ⟨digits, htext⟩ := ih fun d hd => hdigits d (List.mem_cons_of_mem _ hd)
    exact ⟨digit :: digits, by rw [← hdigit, ← htext]; rfl⟩

/-- What is read as a decimal stands between the signs of some literals. -/
theorem exists_bodyText {text : Text} {decimal : Decimal}
    (hread : Decimal.ofText? text = some decimal) (negative percent : Bool) :
    ∃ literal : Literal, literal.negative = negative ∧ literal.percent = percent ∧
      literal.bodyText = text := by
  obtain ⟨whole, hwhole⟩ := exists_digitsText (fun c hc => List.mem_takeWhile_imp hc :
    ∀ c ∈ text.takeWhile Char.isDigit, c.isDigit = true)
  have hparts := @List.takeWhile_append_dropWhile _ Char.isDigit text
  unfold Decimal.ofText? at hread
  dsimp only at hread
  split at hread
  next hrest =>
    split at hread
    · cases hread
    next hsome =>
      have hdigit : whole ++ (none : Option (List (Fin 10))).getD [] ≠ [] := by
        rintro hempty
        rw [Option.getD_none, List.append_nil] at hempty
        rw [hempty] at hwhole
        exact hsome hwhole.symm
      refine ⟨⟨negative, whole, none, percent, hdigit⟩, rfl, rfl, ?_⟩
      rw [hrest, ← hwhole] at hparts
      exact hparts
  next part hrest =>
    split at hread
    next hsome =>
      obtain ⟨hall, hsome⟩ := hsome
      obtain ⟨digits, hdigits⟩ := exists_digitsText (List.all_eq_true.mp hall)
      have hdigit : whole ++ (some digits).getD [] ≠ [] := by
        intro hempty
        apply hsome
        rw [← hwhole, ← hdigits, digitsText, digitsText, ← List.map_append]
        exact List.map_eq_nil_iff.mpr hempty
      refine ⟨⟨negative, whole, some digits, percent, hdigit⟩, rfl, rfl, ?_⟩
      rw [hrest, ← hwhole, ← hdigits] at hparts
      exact hparts
    · cases hread
  · cases hread

end Literal

end Surd
