import Surd.Proofs.Token.Concatenation

/-!
# What each token reads as

One statement for each kind of token says how a scan goes on where that token stands at the front
of a text.
-/

namespace Surd

open Front

/-- A number without a sign is read as a decimal. -/
theorem Number.read?_of_isNumeric {c : Char} {rest : Text} (hc : isNumeric c = true) :
    read? (c :: rest) =
      (Decimal.ofText? (c :: rest)).map fun decimal => Binary64.toFloat false decimal.nearest := by
  have hminus : c ≠ '-' := ne_of_isNumeric hc (by decide)
  have hplus : c ≠ '+' := ne_of_isNumeric hc (by decide)
  unfold read?
  split
  next heq =>
    cases heq
    exact absurd rfl hminus
  next heq =>
    cases heq
    exact absurd rfl hplus
  next => rfl

/-- A minus sign where a number may have a sign is read as that of a number. -/
theorem Front.read_minus {previous : Option Char} (hsign : signAllowed previous = true)
    (text : Text) :
    Front.read previous '-' text = number ['-'] text := by
  rw [Front.read, if_neg (by decide), if_neg (by decide), if_pos ⟨rfl, hsign⟩]

/-- A digit or a point begins a number. -/
theorem Front.read_of_isNumeric {previous : Option Char} {c : Char} {text : Text}
    (hc : isNumeric c = true) : Front.read previous c text = number [] (c :: text) := by
  have hother {d : Char} (hd : isNumeric d = false) : c ≠ d := ne_of_isNumeric hc hd
  rw [Front.read, if_neg (hother (by decide)), if_neg (hother (by decide)),
    if_neg fun h => hother (by decide) h.1, if_pos hc]

/-- A root sign is read with the argument behind it, up to the parenthesis that closes it. -/
theorem Front.read_closed_root (previous : Option Char) {text body rest : Text}
    (hsplit : splitClose 0 text = some (body, rest)) :
    Front.read previous '√' ('(' :: text) =
      ⟨.ok (.root body), Token.rootOpening ++ body ++ [')'], rest⟩ := by
  simp only [Front.read, root, hsplit]
  rfl

/-- A root sign whose parenthesis is not closed is a fault that covers everything behind it. -/
theorem Front.read_open_root (previous : Option Char) {text : Text}
    (hsplit : splitClose 0 text = none) :
    Front.read previous '√' ('(' :: text) =
      ⟨.error .unterminatedRoot, Token.rootOpening ++ text, []⟩ := by
  simp only [Front.read, root, hsplit]
  rfl

/-- A number is read from its sign, where it may have one, and the text behind that. -/
theorem Front.exists_read_number {previous : Option Char} {sign body : Text}
    (hsign : sign = [] ∨ sign = ['-'] ∧ signAllowed previous = true) (hne : body ≠ [])
    (hbody : ∀ c ∈ body.head?, isNumeric c = true) :
    ∃ c text, sign ++ body = c :: text ∧ Front.read previous c text = number sign body := by
  obtain ⟨d, body, rfl⟩ := List.exists_cons_of_ne_nil hne
  rcases hsign with rfl | ⟨rfl, hsign⟩
  · exact ⟨d, body, rfl, read_of_isNumeric (hbody d rfl)⟩
  · exact ⟨'-', d :: body, rfl, read_minus hsign _⟩

/-- The texts that are read as one number, where a sign is allowed or not: perhaps a minus sign,
then a decimal, and perhaps a percent sign. -/
inductive NumberText (allowed : Bool) : Text → Float → Prop
  | intro {sign body : Text} {value : Float} (percent : Bool)
    (hsign : sign = [] ∨ sign = ['-'] ∧ allowed = true) (hne : body ≠ [])
    (hbody : ∀ c ∈ body, isNumeric c = true) (hread : Number.read? (sign ++ body) = some value) :
    NumberText allowed (sign ++ body ++ if percent then ['%'] else [])
      (if percent then value / 100 else value)

namespace NumberText

variable {allowed : Bool} {literal : Text} {value : Float}

/-- The text of a number is read to its end. -/
theorem exists_read {previous : Option Char} (h : NumberText (signAllowed previous) literal value) :
    ∃ c text, literal = c :: text ∧
      Front.read previous c text = ⟨.ok (.number value), c :: text, []⟩ := by
  obtain ⟨percent, hsign, hne, hbody, hread⟩ := h
  rename_i sign body value
  have hpercent : isNumeric '%' = false := by decide
  have htake : (body ++ if percent then ['%'] else []).takeWhile isNumeric = body := by
    rw [List.takeWhile_append_of_pos hbody]
    cases percent <;> simp [hpercent]
  have hdrop : (body ++ if percent then ['%'] else []).dropWhile isNumeric =
      if percent then ['%'] else [] := by
    rw [List.dropWhile_append_of_pos hbody]
    cases percent <;> simp [hpercent]
  have hhead : ∀ c ∈ (body ++ if percent then ['%'] else []).head?, isNumeric c = true := by
    obtain ⟨d, body, rfl⟩ := List.exists_cons_of_ne_nil hne
    intro c hc
    cases hc
    exact hbody d List.mem_cons_self
  obtain ⟨c, text, htext, hfront⟩ :=
    exists_read_number hsign (List.append_ne_nil_of_left_ne_nil hne _) hhead
  rw [← List.append_assoc] at htext
  refine ⟨c, text, htext, ?_⟩
  rw [hfront, number, htake, hdrop, ← htext]
  cases percent with
  | true => exact ofLiteral_percent hread []
  | false => simpa using @ofLiteral_plain _ [] _ hread (by simp)

/-- A number is not written as an empty text. -/
theorem ne_nil (h : NumberText allowed literal value) : literal ≠ [] := by
  obtain ⟨percent, -, hne, -, -⟩ := h
  simp [hne]

/-- The text of a number has digits and points, and signs around them. -/
theorem isNumeric_of_mem (h : NumberText allowed literal value) {c : Char} (hc : c ∈ literal) :
    isNumeric c = true ∨ c = '-' ∨ c = '%' := by
  obtain ⟨percent, hsign, -, hbody, -⟩ := h
  rw [List.mem_append, List.mem_append] at hc
  rcases hc with (hc | hc) | hc
  · rcases hsign with rfl | ⟨rfl, -⟩
    · cases hc
    · exact .inr (.inl (List.mem_singleton.mp hc))
  · exact .inl (hbody c hc)
  · split at hc
    · exact .inr (.inr (List.mem_singleton.mp hc))
    · cases hc

/-- Other characters than digits, points, signs and percent signs do not occur in a number. -/
theorem ne_of_mem (h : NumberText allowed literal value) {c d : Char} (hc : c ∈ literal)
    (hd : isNumeric d = false) (hminus : d ≠ '-') (hpercent : d ≠ '%') : c ≠ d := by
  rcases h.isNumeric_of_mem hc with hc | rfl | rfl
  · exact ne_of_isNumeric hc hd
  · exact hminus.symm
  · exact hpercent.symm

/-- The text of a number has no parentheses. -/
theorem balanced (h : NumberText allowed literal value) : Text.Balanced literal :=
  Text.balanced_of_plain fun _ hc =>
    ⟨h.ne_of_mem hc (by decide) (by decide) (by decide),
      h.ne_of_mem hc (by decide) (by decide) (by decide)⟩

/-- The text of a number ends in a digit, a point or a percent sign. -/
theorem exists_getLast? (h : NumberText allowed literal value) :
    ∃ c, literal.getLast? = some c ∧ (isNumeric c = true ∨ c = '%') := by
  obtain ⟨percent, -, hne, hbody, -⟩ := h
  cases percent with
  | true => exact ⟨'%', List.getLast?_concat, .inr rfl⟩
  | false =>
    rename_i sign body value
    refine ⟨body.getLast hne, ?_, .inl (hbody _ (List.getLast_mem hne))⟩
    rw [if_neg Bool.false_ne_true, List.append_nil, List.getLast?_append,
      List.getLast?_eq_some_getLast hne, Option.some_or]

/-- A minus sign after the text of a number is an operator. -/
theorem signAllowed_getLast? (h : NumberText allowed literal value) :
    signAllowed literal.getLast? = false := by
  obtain ⟨c, hlast, hc | rfl⟩ := h.exists_getLast?
  · rw [hlast]
    exact signAllowed_of_isNumeric hc
  · rw [hlast]
    decide

end NumberText

/-- An operator is written in one byte. -/
theorem Operator.utf8Size_symbol (op : Operator) : op.symbol.utf8Size = 1 := by
  cases op <;> rfl

namespace Scanner

variable {offset : Nat} {previous : Option Char} {text : Text}

/-- An opening parenthesis is a token of its own. -/
theorem scan_leftParen : scan ⟨offset, previous, '(' :: text⟩ =
    .after [⟨.leftParen, ['('], offset⟩] (scan ⟨offset + 1, some '(', text⟩) :=
  scan_of_ok rfl

/-- A closing parenthesis is a token of its own. -/
theorem scan_rightParen : scan ⟨offset, previous, ')' :: text⟩ =
    .after [⟨.rightParen, [')'], offset⟩] (scan ⟨offset + 1, some ')', text⟩) :=
  scan_of_ok rfl

/-- An operator is read as one unless it is a minus sign where a number may have a sign. -/
theorem read_operator {op : Operator} (hbinary : op = .sub → signAllowed previous = false) :
    Front.read previous op.symbol text = ⟨.ok (.operator op), [op.symbol], text⟩ := by
  cases op with
  | sub =>
    have hnumeric : isNumeric '-' = false := by decide
    simp [Front.read, Operator.symbol, hbinary rfl, hnumeric, Operator.ofSymbol?]
  | _ => rfl

/-- An operator is a token of its own, a minus sign if it is not the sign of a number. -/
theorem scan_operator {op : Operator} (hbinary : op = .sub → signAllowed previous = false) :
    scan ⟨offset, previous, op.symbol :: text⟩ =
      .after [⟨.operator op, [op.symbol], offset⟩]
        (scan ⟨offset + op.symbol.utf8Size, some op.symbol, text⟩) := by
  have hread := @read_operator previous text op hbinary
  rw [scan_of_ok (by rw [hread]), hread]
  rfl

/-- A root whose parenthesis is closed is one token. -/
theorem scan_root {body rest : Text} (hsplit : splitClose 0 text = some (body, rest)) :
    scan ⟨offset, previous, Token.rootOpening ++ text⟩ =
      .after [⟨.root body, Token.rootOpening ++ body ++ [')'], offset⟩]
        (scan ⟨offset + Text.bytes (Token.rootOpening ++ body ++ [')']), some ')', rest⟩) := by
  have hread := read_closed_root previous hsplit
  change scan ⟨offset, previous, '√' :: '(' :: text⟩ = _
  rw [scan_of_ok (by rw [hread]), hread, List.getLast?_concat]

/-- A root whose parenthesis is not closed is a fault. -/
theorem scan_open_root (hsplit : splitClose 0 text = none) :
    scan ⟨offset, previous, Token.rootOpening ++ text⟩ =
      ⟨[], some ⟨.unterminatedRoot, .of offset (Token.rootOpening ++ text)⟩⟩ := by
  have hread := read_open_root previous hsplit
  change scan ⟨offset, previous, '√' :: '(' :: text⟩ = _
  rw [scan_of_error (by rw [hread]), hread]

/-- A number is one token, with the percent sign behind it if there is one. -/
theorem scan_number {literal rest : Text} {value : Float}
    (h : NumberText (signAllowed previous) literal value) (hcut : Cut literal rest) :
    scan ⟨offset, previous, literal ++ rest⟩ =
      .after [⟨.number value, literal, offset⟩]
        (scan ⟨offset + Text.bytes literal, literal.getLast?, rest⟩) := by
  obtain ⟨c, text, rfl, hread⟩ := h.exists_read
  rw [List.cons_append, scan_append_of_ok hcut (by rw [hread]), hread]
  rfl

/-- Tokens depend on the character before a text only in what is read at its front. -/
theorem scan_congr_read {before : Option Char} {c : Char}
    (hread : Front.read previous c text = Front.read before c text) :
    scan ⟨offset, previous, c :: text⟩ = scan ⟨offset, before, c :: text⟩ := by
  cases hreading : (Front.read before c text).reading with
  | ok kind => rw [scan_of_ok (by rw [hread, hreading]), scan_of_ok hreading, hread]
  | error cause => rw [scan_of_error (by rw [hread, hreading]), scan_of_error hreading, hread]

/-- Tokens depend on the character before a text only in whether a sign may stand there. -/
theorem scan_congr_previous {before : Option Char}
    (hsign : signAllowed previous = signAllowed before) :
    scan ⟨offset, previous, text⟩ = scan ⟨offset, before, text⟩ := by
  cases text with
  | nil => rw [scan_nil, scan_nil]
  | cons c text => exact scan_congr_read (by simp only [Front.read, hsign])

/-- The character before a text matters only if the text begins with a minus sign. -/
theorem scan_congr_of_head (before : Option Char) (hhead : text.head? ≠ some '-') :
    scan ⟨offset, previous, text⟩ = scan ⟨offset, before, text⟩ := by
  cases text with
  | nil => rw [scan_nil, scan_nil]
  | cons c text =>
    have hminus : c ≠ '-' := fun h => hhead (congrArg some h)
    exact scan_congr_read (by simp only [Front.read, hminus, false_and, if_false])

end Scanner

end Surd
