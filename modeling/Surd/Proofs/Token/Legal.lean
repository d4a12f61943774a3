import Mathlib.Data.List.Basic
import Surd.Proofs.Token.Tiling

/-!
# Reading back what lexemes spell

Lexemes that are written one behind the other are read back as they were meant exactly if each of
them may stand where it stands. The scan of a legal sequence carries the last lexeme along in the
form of its last character (`Lexeme.scan_join`), and the tokens of a text that can be read are a
legal sequence that makes up the text (`Scanner.exists_legal`).
-/

namespace Surd

open Front

/-! ## The ends of a literal -/

namespace Literal

variable {literal : Literal}

/-- A literal with a percent sign ends in it. -/
theorem getLast?_of_percent (hpercent : literal.percent = true) :
    literal.text.getLast? = some '%' := by
  rw [text, if_pos hpercent]
  exact List.getLast?_concat

/-- Without a percent sign a literal ends in a digit or a point. -/
theorem exists_getLast?_of_plain (hplain : literal.percent = false) :
    ∃ c, literal.text.getLast? = some c ∧ isNumeric c = true := by
  refine ⟨literal.bodyText.getLast literal.bodyText_ne_nil, ?_,
    isNumeric_of_mem_bodyText (List.getLast_mem _)⟩
  rw [text, hplain, unscaledText_eq, if_neg Bool.false_ne_true, List.append_nil,
    List.getLast?_append, List.getLast?_eq_some_getLast literal.bodyText_ne_nil, Option.some_or]

/-- A negative literal begins with its minus sign. -/
theorem head?_of_negative (hnegative : literal.negative = true) :
    literal.text.head? = some '-' := by
  rw [text, unscaledText_eq, signText, if_pos hnegative]
  rfl

/-- Without a sign a literal begins with a digit or a point. -/
theorem exists_head?_of_unsigned (hunsigned : literal.negative = false) :
    ∃ c, literal.text.head? = some c ∧ isNumeric c = true := by
  obtain ⟨c, body, hbody⟩ := List.exists_cons_of_ne_nil literal.bodyText_ne_nil
  refine ⟨c, ?_, isNumeric_of_mem_bodyText (by rw [hbody]; exact List.mem_cons_self)⟩
  rw [text, unscaledText_eq, signText, hunsigned, hbody]
  rfl

/-- A literal begins with a minus sign if and only if it is negative. -/
theorem head?_eq_minus_iff : literal.text.head? = some '-' ↔ literal.negative = true := by
  refine ⟨fun hhead => ?_, head?_of_negative⟩
  by_contra hunsigned
  obtain ⟨c, hc, hnumeric⟩ := exists_head?_of_unsigned (Bool.eq_false_iff.mpr hunsigned)
  cases hhead.symm.trans hc
  exact absurd hnumeric (by decide)

/-- A literal ends in a percent sign if and only if it has one. -/
theorem getLast?_eq_percent_iff : literal.text.getLast? = some '%' ↔ literal.percent = true := by
  refine ⟨fun hlast => ?_, getLast?_of_percent⟩
  by_contra hplain
  obtain ⟨c, hc, hnumeric⟩ := exists_getLast?_of_plain (Bool.eq_false_iff.mpr hplain)
  cases hlast.symm.trans hc
  exact absurd hnumeric (by decide)

/-- Different digits are written differently. -/
theorem digitsText_injective : Function.Injective digitsText := by
  have hdigit : ∀ first second : Fin 10,
      Nat.digitChar first.val = Nat.digitChar second.val → first = second := by decide
  exact List.map_injective_iff.mpr hdigit

/-- The digits before the point are the first digits between the signs. -/
theorem takeWhile_bodyText (literal : Literal) :
    literal.bodyText.takeWhile Char.isDigit = digitsText literal.whole := by
  rw [bodyText, List.takeWhile_append_of_pos fun c => isDigit_of_mem_digitsText]
  cases literal.part with
  | none => exact List.append_nil _
  | some part => exact List.append_nil _

/-- A literal can be told from its text. -/
theorem text_injective : Function.Injective text := by
  intro first second htext
  have hnegative : first.negative = second.negative := by
    rw [Bool.eq_iff_iff, ← head?_eq_minus_iff, ← head?_eq_minus_iff, htext]
  have hpercent : first.percent = second.percent := by
    rw [Bool.eq_iff_iff, ← getLast?_eq_percent_iff, ← getLast?_eq_percent_iff, htext]
  have hbody : first.bodyText = second.bodyText := by
    rw [← text_eq, ← text_eq, signText, signText, hnegative, hpercent] at htext
    exact List.append_cancel_left (List.append_cancel_right htext)
  have hwhole : first.whole = second.whole := by
    apply digitsText_injective
    rw [← takeWhile_bodyText, ← takeWhile_bodyText, hbody]
  have hpart : first.part = second.part := by
    rw [bodyText, bodyText, hwhole] at hbody
    have hbehind := List.append_cancel_left hbody
    cases hfirst : first.part with
    | none =>
      cases hsecond : second.part with
      | none => rfl
      | some part => simp [hfirst, hsecond] at hbehind
    | some part =>
      cases hsecond : second.part with
      | none => simp [hfirst, hsecond] at hbehind
      | some other =>
        simp only [hfirst, hsecond, List.cons.injEq, true_and] at hbehind
        rw [digitsText_injective hbehind]
  cases first
  cases second
  cases hnegative
  cases hpercent
  cases hwhole
  cases hpart
  rfl

end Literal

namespace Lexeme

variable {previous : Option Lexeme} {lexemes : List Lexeme}

/-! ## From lexemes to tokens -/

/-- The tokens of lexemes that are written one behind the other from a byte offset on. -/
def place (offset : Nat) : List Lexeme → List Token
  | [] => []
  | lexeme :: lexemes =>
    ⟨lexeme.kind, lexeme.text, offset⟩ :: place (offset + Text.bytes lexeme.text) lexemes

/-- The text of a sequence begins with that of its first lexeme. -/
theorem join_cons (lexeme : Lexeme) (lexemes : List Lexeme) :
    join (lexeme :: lexemes) = lexeme.text ++ join lexemes := List.flatMap_cons ..

/-- The last character of the lexeme before a place, if there is one. -/
def lastChar (previous : Option Lexeme) : Option Char :=
  previous.bind fun before => before.text.getLast?

/-- A minus sign is that of a number exactly behind what ends no value. -/
theorem signAllowed_getLast? (lexeme : Lexeme) :
    signAllowed lexeme.text.getLast? = true ↔ ¬ lexeme.EndsValue := by
  cases lexeme with
  | leftParen => simp [text, EndsValue, signAllowed]
  | rightParen => simp +decide [EndsValue]
  | operator op => cases op <;> simp +decide [EndsValue]
  | number literal => simp [text, EndsValue, literal.numberText.signAllowed_getLast?]
  | root body hbody =>
    have hlast : (root body hbody).text.getLast? = some ')' := List.getLast?_concat
    simp +decide [hlast, EndsValue, signAllowed]

/-- A minus sign is that of a number at the front, and behind a lexeme that ends no value. -/
theorem signAllowed_lastChar :
    signAllowed (lastChar previous) = true ↔
      ∀ before, previous = some before → ¬ before.EndsValue := by
  cases previous with
  | none => simp [lastChar, signAllowed]
  | some before => simpa [lastChar] using before.signAllowed_getLast?

/-- A number does not run together with what may follow it. -/
theorem cut_number {literal : Literal} (hlegal : Legal (some (number literal)) lexemes) :
    Cut literal.text (join lexemes) := by
  cases lexemes with
  | nil => exact cut_nil_right _
  | cons lexeme lexemes =>
    rw [join_cons]
    cases lexeme with
    | leftParen =>
      intro c hc d hd
      cases hd
      have hroot : c ≠ '√' := literal.numberText.ne_of_mem (List.mem_of_getLast? hc) (by decide)
        (by decide) (by decide)
      simp +decide [joins, hroot]
    | rightParen => exact cut_cons (by decide) (by decide) (by decide)
    | operator op => cases op <;> exact cut_cons (by decide) (by decide) (by decide)
    | number next =>
      -- what follows has no sign, so that there is a percent sign before it
      have hmay := hlegal.1
      rw [MayFollow] at hmay
      split at hmay
      next => exact absurd trivial (hmay _ rfl)
      next =>
        intro c hc d hd
        rw [Literal.getLast?_of_percent (hmay literal rfl)] at hc
        cases hc
        simp +decide [joins]
    | root body hbody => exact cut_cons (by decide) (by decide) (by decide)

/-- A lexeme that may stand at a place is read there as it is meant. -/
theorem scan_text_append {lexeme : Lexeme} (hmay : lexeme.MayFollow previous)
    (hlegal : Legal (some lexeme) lexemes) (offset : Nat) :
    Scanner.scan ⟨offset, lastChar previous, lexeme.text ++ join lexemes⟩ =
      .after [⟨lexeme.kind, lexeme.text, offset⟩]
        (Scanner.scan ⟨offset + Text.bytes lexeme.text, lastChar (some lexeme),
          join lexemes⟩) := by
  cases lexeme with
  | leftParen => exact Scanner.scan_leftParen
  | rightParen => exact Scanner.scan_rightParen
  | operator op =>
    refine Scanner.scan_operator fun hsub => ?_
    subst hsub
    obtain ⟨before, rfl, hvalue⟩ := hmay
    rw [Bool.eq_false_iff]
    exact fun hsign => signAllowed_lastChar.mp hsign before rfl hvalue
  | number literal =>
    refine Scanner.scan_number (literal.numberText_of_negative fun hnegative => ?_)
      (cut_number hlegal)
    rw [MayFollow, if_pos hnegative] at hmay
    exact signAllowed_lastChar.mpr hmay
  | root body hbody =>
    have hsplit : splitClose 0 (body ++ ')' :: join lexemes) = some (body, join lexemes) :=
      splitClose_eq_some_iff.mpr ⟨rfl, hbody⟩
    have hlast : lastChar (some (root body hbody)) = some ')' :=
      @List.getLast?_concat _ (Token.rootOpening ++ body) ')'
    have htext : (root body hbody).text ++ join lexemes =
        Token.rootOpening ++ (body ++ ')' :: join lexemes) := by simp [text]
    rw [htext, Scanner.scan_root hsplit, hlast]
    rfl

/-- A legal sequence is read back as it is meant. -/
theorem scan_join (hlegal : Legal previous lexemes) (offset : Nat) :
    Scanner.scan ⟨offset, lastChar previous, join lexemes⟩ = ⟨place offset lexemes, none⟩ := by
  induction lexemes generalizing previous offset with
  | nil => exact Scanner.scan_nil _ _
  | cons lexeme lexemes ih =>
    rw [join_cons, scan_text_append hlegal.1 hlegal.2, ih hlegal.2]
    rfl

end Lexeme

/-! ## From tokens to lexemes -/

namespace Front

variable {before : Option Char} {c : Char} {text : Text}

/-- What is read at the front of a text begins with its first character. -/
theorem head?_literal (before : Option Char) (c : Char) (text : Text) :
    (read before c text).literal.head? = some c := by
  have hparts := literal_append_rest before c text
  obtain ⟨d, literal, hliteral⟩ := List.exists_cons_of_ne_nil (literal_ne_nil before c text)
  rw [hliteral] at hparts ⊢
  rw [(List.cons.inj hparts).1]
  rfl

/-- What is read as a number is no operator. -/
theorem reading_number_ne (sign text : Text) (op : Operator) :
    (number sign text).reading ≠ .ok (.operator op) := by
  unfold number ofLiteral
  split
  · simp
  · split <;> simp

/-- A minus sign that is read as an operator stands where a number has no sign. -/
theorem signAllowed_of_operator (hread : (read before '-' text).reading = .ok (.operator .sub)) :
    signAllowed before = false := by
  rw [Bool.eq_false_iff]
  intro hsign
  rw [read_minus hsign] at hread
  exact reading_number_ne _ _ _ hread

/-- A minus sign that is read as part of a number stands where a number may have a sign. -/
theorem signAllowed_of_number {value : Float}
    (hread : (read before '-' text).reading = .ok (.number value)) :
    signAllowed before = true := by
  by_contra hsign
  have hbinary := @Scanner.read_operator before text .sub fun _ => Bool.eq_false_iff.mpr hsign
  rw [show '-' = Operator.sub.symbol from rfl, hbinary] at hread
  cases hread

end Front

namespace Lexeme

/-- A lexeme may stand where it is read, if it does not go on the number before it. -/
theorem mayFollow_of_read {lexeme : Lexeme} {c : Char} {text : Text}
    (hread : (read (lastChar previous) c text).reading = .ok lexeme.kind)
    (htext : lexeme.text = (read (lastChar previous) c text).literal)
    (hseparate : ∀ before, previous = some before → Separate before.text (c :: text)) :
    lexeme.MayFollow previous := by
  have hhead : lexeme.text.head? = some c := by rw [htext, head?_literal]
  cases lexeme with
  | leftParen | rightParen | root body hbody => trivial
  | operator op =>
    cases op with
    | sub =>
      cases hhead
      have hsign := signAllowed_of_operator hread
      by_contra hnone
      rw [signAllowed_lastChar.mpr fun before hbefore hvalue => hnone ⟨before, hbefore, hvalue⟩]
        at hsign
      cases hsign
    | _ => trivial
  | number literal =>
    rw [MayFollow]
    split
    next hnegative =>
      cases (Literal.head?_of_negative hnegative).symm.trans hhead
      exact signAllowed_lastChar.mp (signAllowed_of_number hread)
    next hunsigned =>
      obtain ⟨d, hd, hnumeric⟩ :=
        Literal.exists_head?_of_unsigned (Bool.eq_false_iff.mpr hunsigned)
      cases hd.symm.trans hhead
      intro before hbefore
      by_contra hplain
      obtain ⟨e, hlast, he⟩ := Literal.exists_getLast?_of_plain (Bool.eq_false_iff.mpr hplain)
      have hends := hseparate _ hbefore e hlast he c rfl
      rw [hnumeric] at hends
      cases hends

/-- A lexeme can be told from its text and its meaning. -/
theorem eq_of_text_of_kind {first second : Lexeme} (htext : first.text = second.text)
    (hkind : first.kind = second.kind) : first = second := by
  cases first with
  | number literal =>
    cases second with
    | number other => rw [Literal.text_injective htext]
    | leftParen | rightParen | operator | root => cases hkind
  | leftParen | rightParen | operator | root =>
    cases second <;> cases hkind
    rfl

/-- Lexemes can be told from their tokens. -/
theorem place_injective (offset : Nat) : Function.Injective (place offset) := by
  intro first second htokens
  induction first generalizing offset second with
  | nil =>
    cases second with
    | nil => rfl
    | cons => cases htokens
  | cons lexeme first ih =>
    cases second with
    | nil => cases htokens
    | cons other second =>
      obtain ⟨htoken, hrest⟩ := List.cons.inj htokens
      obtain ⟨hkind, htext, -⟩ := Token.mk.inj htoken
      obtain rfl := eq_of_text_of_kind htext hkind
      rw [ih _ hrest]

end Lexeme

namespace Scanner

/-- The tokens of a text that can be read are a legal sequence that makes up the text. -/
theorem exists_legal (offset : Nat) (char : Option Char) (text : Text) (previous : Option Lexeme)
    (hchar : char = Lexeme.lastChar previous)
    (hseparate : ∀ before, previous = some before → Separate before.text text)
    (hsound : (scan ⟨offset, char, text⟩).fault = none) :
    ∃ lexemes, Lexeme.Legal previous lexemes ∧ Lexeme.join lexemes = text ∧
      (scan ⟨offset, char, text⟩).tokens = Lexeme.place offset lexemes := by
  induction offset, char, text using scan_induction generalizing previous with
  | nil offset char =>
    refine ⟨[], trivial, rfl, ?_⟩
    rw [scan_nil]
    rfl
  | fault offset char c text cause hread =>
    rw [scan_of_error hread] at hsound
    cases hsound
  | token offset char c text kind hread ih =>
    subst hchar
    obtain ⟨lexeme, rfl, htext⟩ := exists_lexeme hread
    have hmay := Lexeme.mayFollow_of_read hread htext hseparate
    have hrest := separate_rest (Lexeme.lastChar previous) c text
    rw [scan_of_ok hread] at hsound ⊢
    rw [← htext] at ih hrest hsound ⊢
    obtain ⟨lexemes, hlegal, hjoin, htokens⟩ := ih (some lexeme) rfl
      (fun before hbefore => by cases hbefore; exact hrest) hsound
    refine ⟨lexeme :: lexemes, ⟨hmay, hlegal⟩, ?_, ?_⟩
    · rw [Lexeme.join_cons, hjoin, htext, literal_append_rest]
    · rw [Scan.after, htokens]
      rfl

end Scanner

/-- Scanning is the inverse of writing lexemes one behind the other, if each of them may stand where
it stands. Such a sequence is read back as the tokens that were meant, a number as what its literal
is parsed as. And what can be read is the text of one such sequence only, that of its tokens. -/
theorem Scan.tokens_legal :
    (∀ lexemes, Lexeme.Legal none lexemes →
      Scan.of 0 (Lexeme.join lexemes) = ⟨Lexeme.place 0 lexemes, none⟩) ∧
    (∀ text, (Scan.of 0 text).fault = none →
      ∃! lexemes, Lexeme.Legal none lexemes ∧ Lexeme.join lexemes = text ∧
        (Scan.of 0 text).tokens = Lexeme.place 0 lexemes) ∧
    ∀ literal : Literal, Number.read? literal.unscaledText = some literal.unscaled := by
  refine ⟨fun lexemes hlegal => Lexeme.scan_join hlegal 0, fun text hsound => ?_,
    Literal.read?_unscaledText⟩
  obtain ⟨lexemes, hlegal, hjoin, htokens⟩ := Scanner.exists_legal 0 none text none rfl
    (fun before hbefore => by cases hbefore) hsound
  refine ⟨lexemes, ⟨hlegal, hjoin, htokens⟩, ?_⟩
  rintro other ⟨-, -, hother⟩
  exact Lexeme.place_injective 0 (hother.symm.trans htokens)

/-- A percent sign keeps two numbers apart, and behind an operator a minus sign is that of a
number. -/
theorem Scan.tokens_legal_neighbours :
    let lexemes : List Lexeme :=
      [.number ⟨false, [5], none, true, by decide⟩, .number ⟨false, [3], none, false, by decide⟩,
        .operator .sub, .number ⟨true, [], some [5], false, by decide⟩,
        .root "(x)".toList (by decide)]
    Lexeme.Legal none lexemes ∧ Lexeme.join lexemes = "5%3--.5√((x))".toList ∧
      Scan.of 0 "5%3--.5√((x))".toList = ⟨Lexeme.place 0 lexemes, none⟩ ∧
      ∀ other, Lexeme.Legal none other → Lexeme.join other = "5%3--.5√((x))".toList →
        other = lexemes := by
  intro lexemes
  have hlegal : Lexeme.Legal none lexemes := by
    simp [lexemes, Lexeme.Legal, Lexeme.MayFollow, Lexeme.EndsValue]
  have hjoin : Lexeme.join lexemes = "5%3--.5√((x))".toList := rfl
  obtain ⟨hwritten, hread, -⟩ := Scan.tokens_legal
  have hscan := hwritten lexemes hlegal
  rw [hjoin] at hscan
  obtain ⟨only, -, hunique⟩ := hread "5%3--.5√((x))".toList (by rw [hscan])
  refine ⟨hlegal, hjoin, hscan, fun other hother hsame => ?_⟩
  have htokens := hwritten other hother
  rw [hsame] at htokens
  rw [hunique other ⟨hother, hsame, by rw [htokens]⟩,
    hunique lexemes ⟨hlegal, hjoin, by rw [hscan]⟩]

end Surd
