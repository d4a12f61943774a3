import Surd.Proofs.Alphabet
import Surd.Proofs.Evaluation.Malformed

/-!
# Zeros in front of a text

Zeros in front of a number belong to it and do not change it, so a text that begins with a number
has the same value with zeros in front (`evaluate_of_zeros`). In front of anything else zeros are a
number of their own. Then the text has no value with the zeros or none without them, unless a minus
sign stands there, which is the sign of a number only where no number precedes it
(`evaluate_ne_ok_of_zeros`).
-/

namespace Surd

open Front

/-- The text of a number of zeros. -/
def zeros (n : Nat) : Text := List.replicate n '0'

/-- Whether a text begins with a digit, or with a point and a digit. -/
def beginsNumber : Text → Bool
  | [] => false
  | c :: text => c.isDigit || c = '.' && text.head?.any Char.isDigit

/-! ## Reading -/

/-- Zeros in front do not change a decimal, if there is a digit without them. -/
theorem Decimal.ofText?_zeros_append (n : Nat) {text : Text}
    (hdigit : ∃ c ∈ text, c.isDigit = true) : ofText? (zeros n ++ text) = ofText? text := by
  have hzeros : ∀ c ∈ zeros n, c.isDigit = true := by
    intro c hc
    rw [List.eq_of_mem_replicate hc]
    decide
  have hvalue (digits : Text) :
      Nat.ofDigitChars 10 (zeros n ++ digits) 0 = Nat.ofDigitChars 10 digits 0 := by
    simp [zeros, Nat.ofDigitChars_append]
  have hparts := @List.takeWhile_append_dropWhile _ Char.isDigit text
  obtain ⟨c, hc, hdigit⟩ := hdigit
  rw [← hparts, List.mem_append] at hc
  unfold ofText?
  rw [List.takeWhile_append_of_pos hzeros, List.dropWhile_append_of_pos hzeros]
  dsimp only
  split
  next hrest =>
    rw [hrest] at hc
    have hne : text.takeWhile Char.isDigit ≠ [] :=
      List.ne_nil_of_mem (hc.resolve_right List.not_mem_nil)
    rw [if_neg hne, if_neg (List.append_ne_nil_of_right_ne_nil _ hne), hvalue]
  next part hrest =>
    rw [hrest, List.mem_cons] at hc
    have hne : text.takeWhile Char.isDigit ++ part ≠ [] := by
      rcases hc with hc | rfl | hc
      · exact List.append_ne_nil_of_left_ne_nil (List.ne_nil_of_mem hc) _
      · cases hdigit
      · exact List.append_ne_nil_of_right_ne_nil _ (List.ne_nil_of_mem hc)
    rw [List.append_assoc, hvalue]
    simp only [ne_eq, hne, List.append_ne_nil_of_right_ne_nil _ hne, not_false_eq_true]
  next => rfl

/-- What begins with a number has a digit among its first digits and points. -/
theorem exists_isDigit_of_beginsNumber {text : Text} (hbegins : beginsNumber text = true) :
    ∃ c ∈ text.takeWhile isNumeric, c.isDigit = true := by
  cases text with
  | nil => cases hbegins
  | cons c text =>
    simp only [beginsNumber, Bool.or_eq_true, Bool.and_eq_true, decide_eq_true_eq] at hbegins
    rcases hbegins with hdigit | ⟨rfl, hdigit⟩
    · exact ⟨c, by simp [isNumeric, hdigit], hdigit⟩
    · cases text with
      | nil => cases hdigit
      | cons d text =>
        have hdigit : d.isDigit = true := hdigit
        exact ⟨d, by simp [isNumeric, hdigit], hdigit⟩

/-- What does not begin with a number has no number at its front. -/
theorem Decimal.ofText?_takeWhile {text : Text} (hbegins : beginsNumber text = false) :
    ofText? (text.takeWhile isNumeric) = none := by
  cases text with
  | nil => rfl
  | cons c text =>
    simp only [beginsNumber, Bool.or_eq_false_iff, Bool.and_eq_false_iff, decide_eq_false_iff_not]
      at hbegins
    obtain ⟨hdigit, hpart⟩ := hbegins
    have hnumeric : isNumeric '.' = true := by decide
    by_cases hpoint : c = '.'
    · subst hpoint
      cases text with
      | nil => decide
      | cons d text =>
        have hd : d.isDigit = false := hpart.resolve_left (absurd rfl)
        by_cases hpoint : d = '.'
        · subst hpoint
          refine ofText?_of_points ?_
          simp [hnumeric]
        · have hplain : isNumeric d = false := by simp [isNumeric, hd, hpoint]
          simp only [List.takeWhile_cons, hnumeric, hplain, if_true, Bool.false_eq_true, if_false]
          decide
    · have hplain : isNumeric c = false := by simp [isNumeric, hdigit, hpoint]
      simp only [List.takeWhile_cons, hplain, Bool.false_eq_true, if_false]
      decide

/-- Zeros in front do not change the number that digits and points are read as, if there is a digit
without them. -/
theorem Number.read?_zeros_append (n : Nat) {run : Text} (hrun : ∀ c ∈ run, isNumeric c = true)
    (hdigit : ∃ c ∈ run, c.isDigit = true) : read? (zeros n ++ run) = read? run := by
  have hdecimal := Decimal.ofText?_zeros_append n hdigit
  cases n with
  | zero => rfl
  | succ n =>
    obtain ⟨c, run, rfl⟩ := List.exists_cons_of_ne_nil (List.ne_nil_of_mem hdigit.choose_spec.1)
    have hzero : isNumeric '0' = true := by decide
    change read? ('0' :: (zeros n ++ c :: run)) = _
    rw [read?_of_isNumeric hzero, read?_of_isNumeric (hrun c List.mem_cons_self), ← hdecimal]
    rfl

/-- Zeros belong to the digits of a number. -/
theorem isNumeric_of_mem_zeros {n : Nat} {c : Char} (hc : c ∈ zeros n) : isNumeric c = true := by
  rw [List.eq_of_mem_replicate hc]
  decide

/-- Zeros in front of a number are taken with it, and do not change what it is read as. -/
theorem Front.number_zeros_append (n : Nat) {text : Text} {value : Float}
    (hbegins : beginsNumber text = true)
    (hread : Number.read? ((zeros n ++ text).takeWhile isNumeric) = some value) :
    ∃ number literal rest, Front.number [] text = ⟨.ok (.number number), literal, rest⟩ ∧
      Front.number [] (zeros n ++ text) = ⟨.ok (.number number), zeros n ++ literal, rest⟩ ∧
        literal ≠ [] := by
  have hzeros : ∀ c ∈ zeros n, isNumeric c = true := fun c hc => isNumeric_of_mem_zeros hc
  have hdigit := exists_isDigit_of_beginsNumber hbegins
  have hne : text.takeWhile isNumeric ≠ [] := List.ne_nil_of_mem hdigit.choose_spec.1
  rw [List.takeWhile_append_of_pos hzeros] at hread
  have hread' : Number.read? (text.takeWhile isNumeric) = some value := by
    rw [← hread, Number.read?_zeros_append n (fun c hc => List.mem_takeWhile_imp hc) hdigit]
  simp only [Front.number, List.nil_append, List.takeWhile_append_of_pos hzeros,
    List.dropWhile_append_of_pos hzeros, ofLiteral, hread, hread']
  split
  next rest _ => exact ⟨_, _, rest, rfl, by rw [List.append_assoc], by simp⟩
  next => exact ⟨value, _, _, rfl, rfl, hne⟩

/-! ## Evaluation -/

/-- What begins with a number begins with a digit or a point. -/
theorem exists_cons_of_beginsNumber {text : Text} (hbegins : beginsNumber text = true) :
    ∃ c rest, text = c :: rest ∧ isNumeric c = true := by
  cases text with
  | nil => cases hbegins
  | cons c rest =>
    simp only [beginsNumber, Bool.or_eq_true, Bool.and_eq_true] at hbegins
    refine ⟨c, rest, rfl, ?_⟩
    rw [isNumeric, Bool.or_eq_true]
    exact hbegins.imp_right And.left

/-- A frame that begins with a number has the same value with zeros in front. -/
theorem Frame.evaluate_of_zeros {n : Nat} {text : Text} {value : Float}
    (hbegins : beginsNumber text = true)
    (hvalue : (whole (zeros n ++ text)).evaluate = .ok value) :
    (whole text).evaluate = .ok value := by
  cases n with
  | zero => exact hvalue
  | succ n =>
    obtain ⟨c, rest, rfl, hc⟩ := exists_cons_of_beginsNumber hbegins
    have hfront : Front.read none c rest = number [] (c :: rest) := read_of_isNumeric hc
    have hzeros : Front.read none '0' (zeros n ++ c :: rest) =
        number [] (zeros (n + 1) ++ c :: rest) := read_of_isNumeric (by decide)
    cases hread : Number.read? ((zeros (n + 1) ++ c :: rest).takeWhile isNumeric) with
    | none => exact absurd (account_of_evaluate hvalue).1 (Scanner.fault_of_number hzeros hread)
    | some _ =>
      obtain ⟨value, literal, behind, hnumber, hnumber', hne⟩ :=
        Front.number_zeros_append (n + 1) hbegins hread
      rw [hnumber] at hfront
      rw [hnumber'] at hzeros
      have hlast : (zeros (n + 1) ++ literal).getLast? = literal.getLast? := by
        rw [List.getLast?_append, List.getLast?_eq_some_getLast hne, Option.some_or]
      have hscans : ScansAlike (whole (c :: rest)).scan
          (whole (zeros (n + 1) ++ c :: rest)).scan := by
        change ScansAlike (Scanner.scan ⟨0, none, c :: rest⟩)
          (Scanner.scan ⟨0, none, '0' :: (zeros n ++ c :: rest)⟩)
        rw [Scanner.scan_of_ok (by rw [hfront]), Scanner.scan_of_ok (by rw [hzeros]), hfront,
          hzeros]
        refine .after (.same rfl nofun) (Scanner.scan_alike ?_ _ _ _)
        rw [hlast]
      obtain ⟨_, hsame, rfl⟩ := (hvalue ▸ Frame.evaluate_alike hscans).exists_ok
      exact hsame

/-- There is no number at the front of what does not begin with one, with a sign or without. -/
theorem Number.read?_takeWhile {sign text : Text} (hsign : sign = [] ∨ sign = ['-'])
    (hbegins : beginsNumber text = false) : read? (sign ++ text.takeWhile isNumeric) = none := by
  cases hread : read? (sign ++ text.takeWhile isNumeric) with
  | none => rfl
  | some value =>
    obtain ⟨decimal, hdecimal⟩ :=
      Front.read?_of_sign hsign (fun c hc => List.mem_takeWhile_imp hc) hread
    rw [Decimal.ofText?_takeWhile hbegins] at hdecimal
    cases hdecimal

/-- Zeros alone are the text of a number. -/
theorem numberText_zeros (n : Nat) (allowed : Bool) :
    NumberText allowed (zeros (n + 1)) (Binary64.toFloat false 0) := by
  have hsplit : zeros (n + 1) = zeros n ++ zeros 1 := List.replicate_succ'
  have hread : Number.read? (zeros (n + 1)) = some (Binary64.toFloat false 0) := by
    rw [hsplit, Number.read?_zeros_append n (fun c hc => isNumeric_of_mem_zeros hc)
      ⟨'0', List.mem_singleton_self _, by decide⟩]
    exact Number.read?_zero
  have htext := @NumberText.intro allowed [] (zeros (n + 1)) _ false (.inl rfl)
    (List.cons_ne_nil _ _) (fun c hc => isNumeric_of_mem_zeros hc) hread
  simpa using htext

/-- A frame that does not begin with a number, not even behind a minus sign, has no value either
with zeros in front or without them. -/
theorem Frame.evaluate_ne_ok_of_zeros {n : Nat} {text : Text} {value : Float}
    (hbegins : beginsNumber text = false)
    (hminus : ∀ rest, text = '-' :: rest → beginsNumber rest = false)
    (hvalue : (whole (zeros (n + 1) ++ text)).evaluate = .ok value) (other : Float) :
    (whole text).evaluate ≠ .ok other := by
  intro hother
  have hsound : (Scanner.scan ⟨0, none, text⟩).fault = none := (account_of_evaluate hother).1
  cases text with
  | nil => exact evaluate_ne_ok_of_plain (fun c hc => absurd hc List.not_mem_nil) hother
  | cons c rest =>
    by_cases hc : isNumeric c = true
    · exact Scanner.fault_of_number (read_of_isNumeric hc)
        (Number.read?_takeWhile (.inl rfl) hbegins) hsound
    by_cases hsign : c = '-'
    · subst hsign
      exact Scanner.fault_of_number (read_minus rfl rest)
        (Number.read?_takeWhile (.inr rfl) (hminus rest rfl)) hsound
    by_cases hpercent : c = '%'
    · subst hpercent
      have hread : (Front.read none '%' rest).reading = .error (.unexpectedCharacter '%') := rfl
      rw [Scanner.scan_of_error hread] at hsound
      cases hsound
    -- the tokens behind the zeros are those of the text, which so has an operand less
    have hcut : Cut (zeros (n + 1)) (c :: rest) := by
      intro d hd e he
      cases he
      have hroot : d ≠ '√' := by
        rintro rfl
        exact absurd (isNumeric_of_mem_zeros (List.mem_of_getLast? hd)) (by decide)
      simp [joins, hc, hpercent, hroot]
    have hzeros : (whole (zeros (n + 1) ++ c :: rest)).scan = _ :=
      @Scanner.scan_number 0 none _ _ _ (numberText_zeros n _) hcut
    have hhead : (c :: rest).head? ≠ some '-' := fun h => hsign (Option.some.inj h)
    have hcounts := (@Scanner.scan_alike none none rfl (0 + Text.bytes (zeros (n + 1))) 0
      (c :: rest)).counts
    have haccount := (account_of_evaluate hvalue).2.1
    have haccount' : operandCount (Scanner.scan ⟨0, none, c :: rest⟩).tokens =
        operatorCount (Scanner.scan ⟨0, none, c :: rest⟩).tokens + 1 :=
      (account_of_evaluate hother).2.1
    rw [hzeros, Scanner.scan_congr_of_head none hhead] at haccount
    simp only [Scan.after, List.cons_append, List.nil_append, operandCount, operatorCount,
      List.countP_cons, Token.isOperand, Token.isOperator, Bool.false_eq_true, if_true, if_false]
        at hcounts haccount haccount'
    omega

/-! ## Texts -/

/-- Zeros in front of a text stay in front of its normal form. -/
theorem normalize_zeros_append (n : Nat) (text : Text) :
    normalize (zeros n ++ text) = zeros n ++ normalize text := by
  have hzeros : normalize (zeros n) = zeros n := by
    refine normalize_of_plain (fun c hc => isBlank_of_isNumeric (isNumeric_of_mem_zeros hc)) ?_
    exact fun hs => absurd (isNumeric_of_mem_zeros hs) (by decide)
  rw [normalize_append (.inl fun c hc => ?_), hzeros]
  have hmem : c ∈ zeros n := (List.mem_filter.mp (List.mem_of_getLast? hc)).1
  rw [List.eq_of_mem_replicate hmem]
  decide

/-- Marking roots does not change whether a text begins with a number. -/
theorem beginsNumber_markRoots (text : Text) :
    beginsNumber (markRoots text) = beginsNumber text := by
  have hhead (text : Text) :
      (markRoots text).head?.any Char.isDigit = text.head?.any Char.isDigit := by
    fun_cases markRoots text with
    | case1 rest => rfl
    | case2 c text hno => rfl
    | case3 => rfl
  fun_cases markRoots text with
  | case1 rest => rfl
  | case2 c text hno => rw [beginsNumber, beginsNumber, hhead]
  | case3 => rfl

/-- A text that begins with a number has the same value with zeros in front. -/
theorem evaluate_of_zeros {n : Nat} {text : Text} {value : Float}
    (hblank : ∀ c ∈ text, isBlank c = false) (hbegins : beginsNumber text = true)
    (hvalue : evaluate (zeros n ++ text) = .ok value) : evaluate text = .ok value := by
  have hnormal := normalize_of_not_blank hblank
  rw [evaluate_eq_ok_iff, normalize_zeros_append, hnormal] at hvalue
  rw [evaluate_eq_ok_iff, hnormal]
  rw [← beginsNumber_markRoots] at hbegins
  exact Frame.evaluate_of_zeros hbegins hvalue

/-- A text that does not begin with a number, not even behind a minus sign, has no value either with
zeros in front or without them. -/
theorem evaluate_ne_ok_of_zeros {n : Nat} {text : Text} {value : Float}
    (hblank : ∀ c ∈ text, isBlank c = false) (hbegins : beginsNumber text = false)
    (hminus : ∀ rest, text = '-' :: rest → beginsNumber rest = false)
    (hvalue : evaluate (zeros (n + 1) ++ text) = .ok value) (other : Float) :
    evaluate text ≠ .ok other := by
  have hnormal := normalize_of_not_blank hblank
  rw [evaluate_eq_ok_iff, normalize_zeros_append, hnormal] at hvalue
  rw [Ne, evaluate_eq_ok_iff, hnormal]
  rw [← beginsNumber_markRoots] at hbegins
  refine Frame.evaluate_ne_ok_of_zeros hbegins (fun rest hrest => ?_) hvalue other
  obtain ⟨inner, rfl⟩ := List.head?_eq_some_iff.mp
    (head?_of_head?_markRoots (by decide) (congrArg List.head? hrest))
  rw [markRoots_cons fun h => absurd h (by decide)] at hrest
  obtain ⟨-, rfl⟩ := List.cons.inj hrest
  rw [beginsNumber_markRoots]
  exact hminus inner rfl

end Surd
