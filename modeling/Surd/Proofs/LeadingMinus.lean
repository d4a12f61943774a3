import Surd.Proofs.Derivation
import Surd.Proofs.LeadingZeros
import Surd.Proofs.Number.Opposite
import Surd.Proofs.Substitution

/-!
# A minus sign behind zeros

Behind zeros a minus sign subtracts the product that follows it, and without them it is the sign of
the first number of that product. That makes no difference to the value, but for the sign of a zero
(`evaluate_of_zeros_minus`), unless the number is the base of a power: a sign binds tighter than
`^`, and a difference does not.
-/

namespace Surd

open Front

/-- Whether a `^` follows the digits and points at the front of a text, perhaps behind a percent
sign. -/
def beginsPower (text : Text) : Bool :=
  ['^'].isPrefixOf (text.dropWhile isNumeric) || ['%', '^'].isPrefixOf (text.dropWhile isNumeric)

/-- A text begins with a power if one of two things follows its digits and points: the operator, or
a percent sign and then the operator. -/
theorem beginsPower_iff {text : Text} : beginsPower text = true ↔
    ∃ symbols ∈ [['^'], ['%', '^']], symbols <+: text.dropWhile isNumeric := by
  simp [beginsPower]

/-- A power at the front of a text is there whatever follows it. -/
theorem beginsPower_of_append {left right : Text} (hpower : beginsPower (left ++ right) = false) :
    beginsPower left = false := by
  rw [← Bool.not_eq_true] at hpower ⊢
  intro h
  obtain ⟨symbols, hsymbols, hstart⟩ := beginsPower_iff.mp h
  refine hpower (beginsPower_iff.mpr ⟨symbols, hsymbols, ?_⟩)
  have hne : (left.dropWhile isNumeric).isEmpty = false := by
    rw [List.isEmpty_eq_false_iff]
    intro hempty
    rw [hempty, List.prefix_nil] at hstart
    rw [hstart] at hsymbols
    exact absurd hsymbols (by decide)
  rw [List.dropWhile_append, hne, if_neg Bool.false_ne_true]
  exact hstart.trans (List.prefix_append _ _)

/-- Normal form does not change the digits and points at the front of a text. -/
theorem dropWhile_markRoots (text : Text) :
    (markRoots text).dropWhile isNumeric = markRoots (text.dropWhile isNumeric) := by
  fun_induction markRoots text with
  | case1 rest ih =>
    rw [List.dropWhile_cons_of_neg (by decide), List.dropWhile_cons_of_neg (by decide)]
    rfl
  | case2 c text hno ih =>
    by_cases hc : isNumeric c = true
    · rw [List.dropWhile_cons_of_pos hc, List.dropWhile_cons_of_pos hc, ih]
    · have hletters : c = 's' → ¬rootLetters <+: text := by
        rintro hs ⟨rest, hrest⟩
        exact hno rest hs hrest.symm
      rw [List.dropWhile_cons_of_neg hc, List.dropWhile_cons_of_neg hc, markRoots_cons hletters]
  | case3 => rfl

/-- Marking roots puts no power at the front of a text. -/
theorem beginsPower_markRoots {text : Text} (hpower : beginsPower text = false) :
    beginsPower (markRoots text) = false := by
  rw [← Bool.not_eq_true] at hpower ⊢
  intro h
  obtain ⟨symbols, hsymbols, hstart⟩ := beginsPower_iff.mp h
  rw [dropWhile_markRoots] at hstart
  refine hpower (beginsPower_iff.mpr ⟨symbols, hsymbols, prefix_of_prefix_markRoots ?_ hstart⟩)
  simp only [List.mem_cons, List.not_mem_nil, or_false] at hsymbols
  rcases hsymbols with rfl | rfl <;> decide

/-- An operator does not change whether what stands before it begins with a number. -/
theorem beginsNumber_append_symbol (op : Operator) {left : Text} (hne : left ≠ []) (right : Text) :
    beginsNumber (left ++ op.symbol :: right) = beginsNumber left := by
  match left with
  | [c] =>
    have hsymbol : op.symbol.isDigit = false := by cases op <;> decide
    simp [beginsNumber, hsymbol]
  | c :: d :: left => rfl

namespace Literal

/-- A literal that begins with a number has no sign. -/
theorem text_of_beginsNumber {literal : Literal} (hbegins : beginsNumber literal.text = true) :
    literal.negative = false ∧
      literal.text = literal.bodyText ++ if literal.percent then ['%'] else [] := by
  rw [← literal.text_eq, signText] at hbegins ⊢
  cases hsign : literal.negative with
  | false => exact ⟨rfl, rfl⟩
  | true =>
    rw [hsign] at hbegins
    cases hbegins

/-- A literal with a minus sign put in front. -/
def opposite (literal : Literal) : Literal := { literal with negative := true }

/-- The opposite of an unsigned literal is written with a minus sign in front. -/
theorem text_opposite {literal : Literal} (hsign : literal.negative = false) :
    literal.opposite.text = '-' :: literal.text := by
  rw [← literal.text_eq, ← literal.opposite.text_eq, signText, signText, hsign]
  rfl

/-- A minus sign in front of a literal turns the sign of its value. -/
theorem value_opposite {literal : Literal} (hsign : literal.negative = false) :
    Binary64.Opposite literal.opposite.value literal.value := by
  have hunscaled : Binary64.Opposite literal.opposite.unscaled literal.unscaled := by
    have hle : literal.decimal.nearest ≤ Binary64.infinity := Nat.min_le_left _ _
    rw [unscaled, unscaled, hsign]
    exact Binary64.opposite_toFloat hle
  rw [value, value]
  change Binary64.Opposite (if literal.percent then _ else _) _
  split
  · exact hunscaled.div 100
  · exact hunscaled

end Literal

namespace Written

variable {written : Written} {value : Float}

/-- The text of a tree is not empty. -/
theorem text_ne_nil (written : Written) : written.text ≠ [] := by
  obtain ⟨c, hlast, -⟩ := written.exists_getLast?
  intro hempty
  rw [hempty] at hlast
  cases hlast

/-- Nothing is below the tier of sums. -/
theorem one_le_tier (written : Written) : 1 ≤ written.tier := by
  cases written with
  | binary op => cases op <;> simp [tier, Expression.tier]
  | number | group | root => simp [tier]

/-- A binary operation has a value if its operands have values to which the operator applies. -/
theorem value?_binary_iff {op : Operator} {left right : Written} :
    (binary op left right).expression.value? = some value ↔ ∃ leftValue rightValue,
      left.expression.value? = some leftValue ∧ right.expression.value? = some rightValue ∧
        Expression.operate? op leftValue rightValue = some value := by
  simp [expression, Expression.value?, Option.bind_eq_some_iff]

/-- The first number of a power or of an operand is the base of a power, if it is followed by a
`^`. -/
theorem beginsPower_text (hgrouped : written.Grouped) (htier : 3 ≤ written.tier)
    (hbegins : beginsNumber written.text = true) (rest : Text) :
    beginsPower (written.text ++ '^' :: rest) = true := by
  induction written generalizing rest with
  | number literal =>
    have htext : (number literal).text = literal.text := rfl
    rw [htext, (Literal.text_of_beginsNumber hbegins).2, List.append_assoc, beginsPower,
      List.dropWhile_append_of_pos fun c hc => Literal.isNumeric_of_mem_bodyText hc]
    cases literal.percent <;> rfl
  | group inner => cases hbegins
  | root argument => cases hbegins
  | binary op left right ihleft =>
    obtain ⟨hleft, -, hleftGrouped, -⟩ := hgrouped
    have hpow : op = .pow := by
      revert htier
      cases op <;> simp [tier, Expression.tier]
    subst hpow
    rw [text, beginsNumber_append_symbol _ left.text_ne_nil] at hbegins
    rw [text, List.append_assoc]
    exact ihleft hleftGrouped hleft hbegins _

/-- Of products with opposite left operands, and of quotients, the values are opposite. -/
theorem exists_operate?_of_opposite {op : Operator} (hop : op = .mul ∨ op = .div)
    {a b right : Float} (h : Binary64.Opposite a b)
    (hvalue : Expression.operate? op b right = some value) :
    ∃ other, Expression.operate? op a right = some other ∧ Binary64.Opposite other value := by
  rcases hop with rfl | rfl
  · cases hvalue
    exact ⟨_, rfl, h.mul right⟩
  · simp only [Expression.operate?] at hvalue ⊢
    split at hvalue
    · cases hvalue
    next hzero =>
      cases hvalue
      exact ⟨_, if_neg hzero, h.div right⟩

/-- A minus sign in front of a product turns the sign of its value. -/
theorem exists_opposite (hgrouped : written.Grouped) (htier : 1 < written.tier)
    (hbegins : beginsNumber written.text = true) (hpower : beginsPower written.text = false)
    (hvalue : written.expression.value? = some value) :
    ∃ signed : Written, signed.Grouped ∧ signed.text = '-' :: written.text ∧
      signed.tier = written.tier ∧
      ∃ other, signed.expression.value? = some other ∧ Binary64.Opposite other value := by
  induction written generalizing value with
  | number literal =>
    have hsign := (Literal.text_of_beginsNumber hbegins).1
    cases hvalue
    exact ⟨number literal.opposite, trivial, Literal.text_opposite hsign, rfl, _, rfl,
      Literal.value_opposite hsign⟩
  | group inner => cases hbegins
  | root argument => cases hbegins
  | binary op left right ihleft =>
    obtain ⟨hleft, hright, hleftGrouped, hrightGrouped⟩ := hgrouped
    rw [text, beginsNumber_append_symbol _ left.text_ne_nil] at hbegins
    have hop : op = .mul ∨ op = .div := by
      cases op with
      | add | sub => exact absurd htier (by simp [tier, Expression.tier])
      | mul => exact .inl rfl
      | div => exact .inr rfl
      | pow =>
        have hbase := beginsPower_text hleftGrouped hleft hbegins right.text
        exact absurd (hbase.symm.trans hpower) Bool.true_eq_false.mp
    obtain ⟨leftValue, rightValue, hleftValue, hrightValue, hvalue⟩ := value?_binary_iff.mp hvalue
    have hleftTier : 1 < left.tier := htier.trans_le hleft
    obtain ⟨signed, hsigned, htext, hsame, other, hother, hopposite⟩ :=
      ihleft hleftGrouped hleftTier hbegins (beginsPower_of_append hpower) hleftValue
    obtain ⟨result, hresult, hopposite⟩ := exists_operate?_of_opposite hop hopposite hvalue
    refine ⟨binary op signed right, ⟨hsame ▸ hleft, hright, hsigned, hrightGrouped⟩, ?_, rfl,
      result, value?_binary_iff.mpr ⟨_, _, hother, hrightValue, hresult⟩, hopposite⟩
    rw [text, htext]
    rfl

/-- Of sums and differences whose left operands are the same up to the sign of a zero, the values
are so too. -/
theorem exists_operate?_of_sameUpToZero {op : Operator} (hop : Expression.tier op = 1)
    {a b right : Float} (h : Binary64.SameUpToZero a b)
    (hvalue : Expression.operate? op b right = some value) :
    ∃ other, Expression.operate? op a right = some other ∧ Binary64.SameUpToZero other value := by
  cases op with
  | add =>
    cases hvalue
    exact ⟨_, rfl, h.add right⟩
  | sub =>
    cases hvalue
    exact ⟨_, rfl, h.sub right⟩
  | mul | div | pow => cases hop

/-- The value of a tree is that of its text. -/
theorem value?_eq_some_iff (hgrouped : written.Grouped) :
    written.expression.value? = some value ↔ (Frame.whole written.text).evaluate = .ok value := by
  rw [← toOption_evaluate written 0, ← evaluate_frame hgrouped]
  change (Frame.whole written.text).evaluate.toOption = _ ↔ _
  cases (Frame.whole written.text).evaluate <;> simp [Except.toOption]

/-- Where zeros and a minus sign begin two texts with an operator between them, the operator is that
sign, or they begin the first text. -/
theorem eq_or_eq_of_append_symbol {op : Operator} {left right rest : Text} {n : Nat}
    (hsame : left ++ op.symbol :: right = zeros n ++ '-' :: rest) :
    left = zeros n ∧ op = .sub ∧ right = rest ∨
      ∃ inner, left = zeros n ++ '-' :: inner ∧ rest = inner ++ op.symbol :: right := by
  have hminus (h : op.symbol :: right = '-' :: rest) : op = .sub ∧ right = rest := by
    obtain ⟨hsymbol, hright⟩ := List.cons.inj h
    refine ⟨?_, hright⟩
    cases op <;> first | rfl | exact absurd hsymbol (by decide)
  rcases List.append_eq_append_iff.mp hsame with ⟨middle, hzeros, hright⟩ | ⟨middle, hleft, hright⟩
  · cases middle with
    | nil => exact .inl ⟨by simpa using hzeros.symm, hminus hright⟩
    | cons c middle =>
      -- no operator is written as a zero
      have hc : c ∈ zeros n := hzeros ▸ List.mem_append_right _ List.mem_cons_self
      obtain ⟨rfl, -⟩ := List.cons.inj hright
      have hsymbol : isNumeric op.symbol = false := by cases op <;> decide
      exact absurd (isNumeric_of_mem_zeros hc) (by simp [hsymbol])
  · cases middle with
    | nil => exact .inl ⟨by simpa using hleft, hminus hright.symm⟩
    | cons c middle =>
      obtain ⟨rfl, hrest⟩ := List.cons.inj hright
      exact .inr ⟨middle, hleft, hrest⟩

/-- Without zeros in front of it a minus sign becomes the sign of a number. The tree that is left
has the same value up to the sign of a zero. -/
theorem exists_signed {n : Nat} {rest : Text} (hgrouped : written.Grouped)
    (htext : written.text = zeros (n + 1) ++ '-' :: rest) (hbegins : beginsNumber rest = true)
    (hpower : beginsPower rest = false) (hvalue : written.expression.value? = some value) :
    written.tier = 1 ∧ ∃ signed : Written, signed.Grouped ∧ signed.text = '-' :: rest ∧
      ∃ other, signed.expression.value? = some other ∧ Binary64.SameUpToZero other value := by
  induction written generalizing rest value with
  | number literal =>
    have htext : literal.text = zeros (n + 1) ++ '-' :: rest := htext
    have hplain := (Literal.text_of_beginsNumber (by rw [htext]; rfl)).2
    have hminus : '-' ∈ literal.text := by simp [htext]
    rw [hplain, List.mem_append] at hminus
    rcases hminus with hminus | hminus
    · exact absurd (Literal.isNumeric_of_mem_bodyText hminus) (by decide)
    · split at hminus
      · exact absurd hminus (by decide)
      · cases hminus
  | group inner => cases htext
  | root argument => cases htext
  | binary op left right ihleft =>
    obtain ⟨hleft, hright, hleftGrouped, hrightGrouped⟩ := hgrouped
    obtain ⟨leftValue, rightValue, hleftValue, hrightValue, hvalue⟩ := value?_binary_iff.mp hvalue
    rcases eq_or_eq_of_append_symbol htext with ⟨hzeros, rfl, rfl⟩ | ⟨inner, hinner, rfl⟩
    · -- the product behind the minus sign is turned as a whole
      rw [value?_eq_some_iff hleftGrouped, hzeros, (numberText_zeros n true).evaluate] at hleftValue
      cases hleftValue
      cases hvalue
      obtain ⟨signed, hsigned, htext, -, other, hother, hopposite⟩ :=
        exists_opposite hrightGrouped hright hbegins hpower hrightValue
      exact ⟨rfl, signed, hsigned, htext, other, hother, hopposite.sameUpToZero_sub⟩
    · have hne : inner ≠ [] := by
        rintro rfl
        cases op <;> cases hbegins
      rw [beginsNumber_append_symbol op hne] at hbegins
      obtain ⟨htier, signed, hsigned, htext, other, hother, hsame⟩ :=
        ihleft hleftGrouped hinner hbegins (beginsPower_of_append hpower) hleftValue
      have hop : Expression.tier op = 1 := by
        have hpos : 1 ≤ Expression.tier op := by cases op <;> decide
        omega
      obtain ⟨result, hresult, hsame⟩ := exists_operate?_of_sameUpToZero hop hsame hvalue
      refine ⟨hop, binary op signed right,
        ⟨hop.trans_le signed.one_le_tier, hright, hsigned, hrightGrouped⟩, ?_, result,
        value?_binary_iff.mpr ⟨_, _, hother, hrightValue, hresult⟩, hsame⟩
      rw [text, htext]
      rfl

end Written

/-- A minus sign and a number behind zeros: the value of a calculation stays without the zeros, up
to the sign of a zero, unless the number is the base of a power. -/
theorem evaluate_of_zeros_minus {n : Nat} {rest : Text} {value : Float}
    (hblank : ∀ c ∈ rest, isBlank c = false) (hbegins : beginsNumber rest = true)
    (hpower : beginsPower rest = false)
    (hcalculation :
      IsCalculation (Frame.whole (normalize (zeros (n + 1) ++ '-' :: rest))).scan.tokens)
    (hvalue : evaluate (zeros (n + 1) ++ '-' :: rest) = .ok value) :
    ∃ other, evaluate ('-' :: rest) = .ok other ∧ Binary64.SameUpToZero other value := by
  have hminus : normalize ('-' :: rest) = '-' :: markRoots rest := by
    have happend := normalize_append_symbol .sub [] rest
    rw [normalize_of_not_blank hblank] at happend
    exact happend
  have hvalue := evaluate_eq_ok_iff.mp hvalue
  rw [normalize_zeros_append, hminus] at hcalculation hvalue
  obtain ⟨written, hgrouped, htext⟩ := exists_written_of_isCalculation hcalculation fun _ hmem =>
    Scanner.spelled_of_mem hmem
  have htext : written.text = zeros (n + 1) ++ '-' :: markRoots rest :=
    htext.trans (Scanner.join_tokens (Frame.account_of_evaluate hvalue).1)
  rw [← htext, ← Written.value?_eq_some_iff hgrouped] at hvalue
  rw [← beginsNumber_markRoots] at hbegins
  obtain ⟨-, signed, hsigned, hsignedText, other, hother, hsame⟩ :=
    Written.exists_signed hgrouped htext hbegins (beginsPower_markRoots hpower) hvalue
  rw [Written.value?_eq_some_iff hsigned, hsignedText, ← hminus] at hother
  exact ⟨other, evaluate_eq_ok_iff.mpr hother, hsame⟩

end Surd
