import Surd.Proofs.Token.Lexeme

/-!
# Where tokens stand

The literals of tokens stand one behind the other from the front of the text, and what follows some
of them is scanned on from there (`Scanner.exists_rest`). Where the scan fails, the characters that
the fault marks are of a kind that no token is written with (`Front.rejects_of_read`).
-/

namespace Surd

/-- The literals of tokens, written one behind the other. -/
def Token.join (tokens : List Token) : Text := tokens.flatMap Token.literal

/-- The text of tokens begins with that of the first one. -/
theorem Token.join_cons (token : Token) (tokens : List Token) :
    join (token :: tokens) = token.literal ++ join tokens := List.flatMap_cons ..

/-! ## The spelling of a token -/

/-- A token is written as a lexeme that means the same. -/
def Token.Spelled (token : Token) : Prop :=
  ∃ lexeme : Lexeme, lexeme.kind = token.kind ∧ lexeme.text = token.literal

namespace Token.Spelled

variable {token : Token}

/-- A token for an opening parenthesis is spelled as one. -/
theorem leftParen (h : token.Spelled) (hkind : token.kind = .leftParen) :
    token.literal = ['('] := by
  obtain ⟨lexeme, hlexeme, htext⟩ := h
  rw [hkind] at hlexeme
  cases lexeme <;> cases hlexeme
  exact htext.symm

/-- A token for a closing parenthesis is spelled as one. -/
theorem rightParen (h : token.Spelled) (hkind : token.kind = .rightParen) :
    token.literal = [')'] := by
  obtain ⟨lexeme, hlexeme, htext⟩ := h
  rw [hkind] at hlexeme
  cases lexeme <;> cases hlexeme
  exact htext.symm

/-- A token for an operator is spelled by its symbol. -/
theorem operator (h : token.Spelled) {op : Operator} (hkind : token.kind = .operator op) :
    token.literal = [op.symbol] := by
  obtain ⟨lexeme, hlexeme, htext⟩ := h
  rw [hkind] at hlexeme
  cases lexeme <;> cases hlexeme
  exact htext.symm

/-- A root is written with its argument in parentheses, and the argument is balanced. -/
theorem root (h : token.Spelled) {body : Text} (hkind : token.kind = .root body) :
    token.literal = rootOpening ++ body ++ [')'] ∧ Text.Balanced body := by
  obtain ⟨lexeme, hlexeme, htext⟩ := h
  rw [hkind] at hlexeme
  cases lexeme <;> cases hlexeme
  exact ⟨htext.symm, by assumption⟩

end Token.Spelled

/-- Every token of a scan is spelled as it means. -/
theorem Scanner.spelled_of_mem {offset : Nat} {previous : Option Char} {text : Text}
    {token : Token} (hmem : token ∈ (scan ⟨offset, previous, text⟩).tokens) : token.Spelled := by
  induction offset, previous, text using scan_induction with
  | nil offset previous =>
    rw [scan_nil] at hmem
    cases hmem
  | fault offset previous c text cause hread =>
    rw [scan_of_error hread] at hmem
    cases hmem
  | token offset previous c text kind hread ih =>
    rw [scan_of_ok hread] at hmem
    rcases List.mem_cons.mp hmem with rfl | hmem
    · exact Front.exists_lexeme hread
    · exact ih hmem

/-! ## What follows a token -/

namespace Front

/-- No digit or point follows another one over the place between two texts. -/
def Separate (left right : Text) : Prop :=
  ∀ c ∈ left.getLast?, isNumeric c = true → ∀ d ∈ right.head?, isNumeric d = false

/-- Texts are separate if the left one does not end in a digit or a point. -/
theorem separate_of_last {left right : Text} (h : ∀ c ∈ left.getLast?, isNumeric c = false) :
    Separate left right := by
  intro c hc hnumeric
  rw [h c hc] at hnumeric
  cases hnumeric

/-- Texts are separate if the right one does not begin with a digit or a point. -/
theorem separate_of_head {left right : Text} (h : ∀ d ∈ right.head?, isNumeric d = false) :
    Separate left right := fun _ _ _ => h

/-- Behind the digits and points at the front of a text there are no more of them. -/
theorem not_isNumeric_of_dropWhile {text : Text} {d : Char}
    (hd : d ∈ (text.dropWhile isNumeric).head?) : isNumeric d = false := by
  have hhead := @List.head?_dropWhile_not _ isNumeric text
  rw [hd] at hhead
  simpa using hhead

/-- A number takes all digits and points that belong together. -/
theorem separate_number (sign text : Text) :
    Separate (number sign text).literal (number sign text).rest := by
  have hdrop : ∀ d ∈ (text.dropWhile isNumeric).head?, isNumeric d = false :=
    fun d => not_isNumeric_of_dropWhile
  unfold number ofLiteral
  split
  · exact separate_of_head hdrop
  · split
    · refine separate_of_last fun c hc => ?_
      rw [List.getLast?_concat] at hc
      cases hc
      decide
    · exact separate_of_head hdrop

/-- What is read at the front takes all digits and points that belong together. -/
theorem separate_rest (previous : Option Char) (c : Char) (text : Text) :
    Separate (read previous c text).literal (read previous c text).rest := by
  have hsingle {d : Char} (hd : isNumeric d = false) (right : Text) : Separate [d] right :=
    separate_of_last fun e he => by
      cases he
      exact hd
  unfold read
  split
  next hopen => exact hsingle (by rw [hopen]; decide) _
  split
  next hclose => exact hsingle (by rw [hclose]; decide) _
  split
  next => exact separate_number _ _
  split
  next => exact separate_number _ _
  next hplain =>
    rw [Bool.not_eq_true] at hplain
    split
    next =>
      unfold root
      split
      next inner =>
        split
        next =>
          refine separate_of_last fun d hd => ?_
          rw [List.getLast?_concat] at hd
          cases hd
          decide
        next =>
          refine separate_of_head fun d hd => ?_
          cases hd
      next => exact hsingle (by decide) _
    next => split <;> exact hsingle hplain _

end Front

/-- What stands on the two sides of a place is separate if the part in front of the place is, or if
that part is empty and the one in front of it is. -/
theorem Front.Separate.append {left middle right : Text} (hleft : Separate left (middle ++ right))
    (hmiddle : Separate middle right) : Separate (left ++ middle) right := by
  intro c hc
  rw [List.getLast?_append] at hc
  cases hlast : middle.getLast? with
  | some d =>
    rw [hlast, Option.some_or] at hc
    exact hmiddle c (hlast.trans hc)
  | none =>
    rw [hlast, Option.none_or] at hc
    rw [List.getLast?_eq_none_iff.mp hlast] at hleft
    exact hleft c hc

namespace Scanner

variable {offset : Nat} {previous : Option Char} {text : Text}

/-- The first token of a scan is written at the front of the text, and the scan goes on behind
it. -/
theorem exists_rest_of_cons {token : Token} {tokens : List Token}
    (hcons : (scan ⟨offset, previous, text⟩).tokens = token :: tokens) :
    token.offset = offset ∧ ∃ right, text = token.literal ++ right ∧
      Front.Separate token.literal right ∧
      scan ⟨offset + Text.bytes token.literal, token.literal.getLast?.or previous, right⟩ =
        ⟨tokens, (scan ⟨offset, previous, text⟩).fault⟩ := by
  cases text with
  | nil =>
    rw [scan_nil] at hcons
    cases hcons
  | cons c text =>
    cases hread : (Front.read previous c text).reading with
    | error cause =>
      rw [scan_of_error hread] at hcons
      cases hcons
    | ok kind =>
      rw [scan_of_ok hread] at hcons ⊢
      obtain ⟨rfl, rfl⟩ := List.cons.inj hcons
      refine ⟨rfl, _, (Front.literal_append_rest previous c text).symm,
        Front.separate_rest previous c text, ?_⟩
      rw [getLast?_literal_or]
      rfl

/-- Tokens at the front of a scan are written at the front of the text, and the scan goes on behind
them. -/
theorem exists_rest {first second : List Token}
    (hsplit : (scan ⟨offset, previous, text⟩).tokens = first ++ second) :
    ∃ right, text = Token.join first ++ right ∧ Front.Separate (Token.join first) right ∧
      scan ⟨offset + Text.bytes (Token.join first), (Token.join first).getLast?.or previous,
        right⟩ = ⟨second, (scan ⟨offset, previous, text⟩).fault⟩ := by
  induction first generalizing offset previous text with
  | nil =>
    refine ⟨text, rfl, (fun c hc => by cases hc), ?_⟩
    rw [List.nil_append] at hsplit
    rw [← hsplit]
    rfl
  | cons token first ih =>
    obtain ⟨-, rest, rfl, hseparate, hrest⟩ := exists_rest_of_cons hsplit
    obtain ⟨right, rfl, hright, hscan⟩ := ih (congrArg Scan.tokens hrest)
    rw [hrest] at hscan
    refine ⟨right, ?_, ?_, ?_⟩
    · rw [Token.join_cons, List.append_assoc]
    · rw [Token.join_cons]
      exact hseparate.append hright
    · rw [Token.join_cons, Text.bytes_append, List.getLast?_append, Option.or_assoc,
        ← Nat.add_assoc]
      exact hscan

/-- A token stands behind those before it. -/
theorem exists_place {token : Token} (hmem : token ∈ (scan ⟨offset, previous, text⟩).tokens) :
    ∃ left right, text = left ++ token.literal ++ right ∧
      token.offset = offset + Text.bytes left := by
  obtain ⟨first, second, hsplit⟩ := List.append_of_mem hmem
  obtain ⟨right, rfl, -, hscan⟩ := exists_rest hsplit
  obtain ⟨hoffset, rest, rfl, -, -⟩ := exists_rest_of_cons (congrArg Scan.tokens hscan)
  exact ⟨Token.join first, rest, (List.append_assoc ..).symm, hoffset⟩

/-- The tokens of a text without faults make up the text. -/
theorem join_tokens (hsound : (scan ⟨offset, previous, text⟩).fault = none) :
    Token.join (scan ⟨offset, previous, text⟩).tokens = text := by
  obtain ⟨right, htext, -, hscan⟩ := exists_rest (List.append_nil _).symm
  rw [hsound] at hscan
  cases right with
  | nil => exact ((List.append_nil _).symm.trans htext.symm)
  | cons c right =>
    -- something is read at the front of what is left, or it is a fault
    cases hread : (Front.read _ c right).reading with
    | ok kind =>
      rw [scan_of_ok hread] at hscan
      cases congrArg Scan.tokens hscan
    | error cause =>
      rw [scan_of_error hread] at hscan
      cases congrArg Scan.fault hscan

/-- A scan without tokens that fails does so at the front of the text. -/
theorem read_of_fault {fault : Fault} (hscan : scan ⟨offset, previous, text⟩ = ⟨[], some fault⟩) :
    ∃ c rest, text = c :: rest ∧ (Front.read previous c rest).reading = .error fault.cause ∧
      fault.span = .of offset (Front.read previous c rest).literal := by
  cases text with
  | nil =>
    rw [scan_nil] at hscan
    cases hscan
  | cons c text =>
    cases hread : (Front.read previous c text).reading with
    | ok kind =>
      rw [scan_of_ok hread] at hscan
      cases congrArg Scan.tokens hscan
    | error cause =>
      rw [scan_of_error hread] at hscan
      cases hscan
      exact ⟨c, text, rfl, hread, rfl⟩

end Scanner

/-! ## Characters that are no token -/

/-- Digits and points that are no decimal have no digit, or more than one point. -/
theorem Decimal.bad_of_ofText? {run : Text} (hnumeric : ∀ c ∈ run, Front.isNumeric c = true)
    (hnone : ofText? run = none) : (∀ c ∈ run, c.isDigit = false) ∨ 2 ≤ run.count '.' := by
  have hparts := @List.takeWhile_append_dropWhile _ Char.isDigit run
  have hpoint {c : Char} (hc : c ∈ run) (hdigit : c.isDigit = false) : c = '.' := by
    simpa [Front.isNumeric, hdigit] using hnumeric c hc
  unfold ofText? at hnone
  dsimp only at hnone
  split at hnone
  next hrest =>
    split at hnone
    next hempty =>
      rw [hempty, hrest] at hparts
      rw [← hparts]
      exact .inl fun c hc => by cases hc
    next => cases hnone
  next part hrest =>
    split at hnone
    next => cases hnone
    next hbad =>
      rw [hrest] at hparts
      by_cases hall : part.all Char.isDigit = true
      · -- no digits around the point, so it stands alone
        have hempty : run.takeWhile Char.isDigit ++ part = [] := by
          by_contra hsome
          exact hbad ⟨hall, hsome⟩
        obtain ⟨hwhole, rfl⟩ := List.append_eq_nil_iff.mp hempty
        rw [hwhole] at hparts
        rw [← hparts]
        left
        intro c hc
        rw [List.mem_singleton.mp hc]
        decide
      · rw [List.all_eq_true, not_forall] at hall
        obtain ⟨c, hc⟩ := hall
        obtain ⟨hmem, hdigit⟩ := Classical.not_imp.mp hc
        have hdot : c = '.' := by
          refine hpoint ?_ (Bool.eq_false_iff.mpr hdigit)
          rw [← hparts]
          exact List.mem_append_right _ (List.mem_cons_of_mem _ hmem)
        have hcount := List.count_pos_iff.mpr (hdot ▸ hmem)
        right
        rw [← hparts, List.count_append, List.count_cons_self]
        omega
  next hother hrest =>
    -- the first character that is no digit is a point
    exfalso
    cases hdrop : run.dropWhile Char.isDigit with
    | nil => exact hother hdrop
    | cons c part =>
      have hhead := @List.head?_dropWhile_not _ Char.isDigit run
      rw [hdrop] at hhead hparts
      have hdot : c = '.' := by
        refine hpoint ?_ (by simpa using hhead)
        rw [← hparts]
        exact List.mem_append_right _ List.mem_cons_self
      rw [hdot] at hdrop
      exact hrest part hdrop

/-- A sign and digits and points that are no number have no digit, or more than one point. -/
theorem Number.bad_of_read? {sign run : Text} (hsign : sign = [] ∨ sign = ['-'])
    (hnumeric : ∀ c ∈ run, Front.isNumeric c = true) (hnone : read? (sign ++ run) = none) :
    (∀ c ∈ run, c.isDigit = false) ∨ 2 ≤ run.count '.' := by
  refine Decimal.bad_of_ofText? hnumeric ?_
  rcases hsign with rfl | rfl
  · cases run with
    | nil => rfl
    | cons c run =>
      rw [List.nil_append, read?_of_isNumeric (hnumeric c List.mem_cons_self)] at hnone
      exact Option.map_eq_none_iff.mp hnone
  · exact Option.map_eq_none_iff.mp hnone

namespace Front

/-- All that can be wrong at the front of a text: the cause, the characters that are marked, and
those that follow. -/
inductive Rejects : Cause → Text → Text → Prop
  | unexpectedCharacter {c : Char} {rest : Text} (hnumeric : isNumeric c = false)
    (hplain : c ∉ ['+', '-', '*', '/', '^', '(', ')', '√']) :
    Rejects (.unexpectedCharacter c) [c] rest
  | invalidNumber {sign run rest : Text} (hsign : sign = [] ∨ sign = ['-'])
    (hnumeric : ∀ c ∈ run, isNumeric c = true) (hrest : ∀ c ∈ rest.head?, isNumeric c = false)
    (hbad : (∀ c ∈ run, c.isDigit = false) ∨ 2 ≤ run.count '.') :
    Rejects (.invalidNumber (sign ++ run)) (sign ++ run) rest
  | missingRootParen {rest : Text} (hopen : rest.head? ≠ some '(') :
    Rejects .missingRootParen ['√'] rest
  | unterminatedRoot {inner : Text} (hsplit : splitClose 0 inner = none) :
    Rejects .unterminatedRoot ('√' :: '(' :: inner) []

/-- A number that cannot be read is rejected for its digits and points. -/
theorem rejects_of_number {sign text : Text} {cause : Cause} (hsign : sign = [] ∨ sign = ['-'])
    (hread : (number sign text).reading = .error cause) :
    Rejects cause (number sign text).literal (number sign text).rest := by
  have hnumeric : ∀ c ∈ text.takeWhile isNumeric, isNumeric c = true := fun c hc =>
    List.mem_takeWhile_imp hc
  unfold number ofLiteral at hread ⊢
  cases hnone : Number.read? (sign ++ text.takeWhile isNumeric) with
  | none =>
    simp only [hnone] at hread ⊢
    cases hread
    exact .invalidNumber hsign hnumeric (fun d => not_isNumeric_of_dropWhile)
      (Number.bad_of_read? hsign hnumeric hnone)
  | some value =>
    simp only [hnone] at hread
    split at hread <;> cases hread

/-- A root that cannot be read is rejected for its parenthesis, missing or not closed. -/
theorem rejects_of_root {text : Text} {cause : Cause}
    (hread : (root text).reading = .error cause) :
    Rejects cause (root text).literal (root text).rest := by
  unfold root at hread ⊢
  split at hread
  next inner =>
    split at hread
    next => cases hread
    next hsplit =>
      cases hread
      exact .unterminatedRoot hsplit
  next hopen =>
    cases hread
    refine .missingRootParen fun hhead => ?_
    obtain ⟨inner, rfl⟩ := List.head?_eq_some_iff.mp hhead
    exact hopen inner rfl

/-- Where no token can be read, the text is of one of the forms that are no token. -/
theorem rejects_of_read {previous : Option Char} {c : Char} {text : Text} {cause : Cause}
    (hread : (read previous c text).reading = .error cause) :
    Rejects cause (read previous c text).literal (read previous c text).rest := by
  unfold read at hread ⊢
  by_cases hopen : c = '('
  · rw [if_pos hopen] at hread
    cases hread
  simp only [if_neg hopen] at hread ⊢
  by_cases hclose : c = ')'
  · rw [if_pos hclose] at hread
    cases hread
  simp only [if_neg hclose] at hread ⊢
  by_cases hsign : c = '-' ∧ signAllowed previous = true
  · simp only [if_pos hsign] at hread ⊢
    exact rejects_of_number (.inr (by rw [hsign.1])) hread
  simp only [if_neg hsign] at hread ⊢
  by_cases hnumeric : isNumeric c = true
  · simp only [if_pos hnumeric] at hread ⊢
    exact rejects_of_number (.inl rfl) hread
  simp only [if_neg hnumeric] at hread ⊢
  by_cases hroot : c = '√'
  · simp only [if_pos hroot] at hread ⊢
    exact rejects_of_root hread
  simp only [if_neg hroot] at hread ⊢
  cases hsymbol : Operator.ofSymbol? c with
  | some op =>
    rw [hsymbol] at hread
    cases hread
  | none =>
    rw [hsymbol] at hread
    cases hread
    refine .unexpectedCharacter (Bool.eq_false_iff.mpr hnumeric) fun hmem => ?_
    simp only [List.mem_cons, List.not_mem_nil, or_false, hopen, hclose, hroot] at hmem
    rcases hmem with rfl | rfl | rfl | rfl | rfl <;> cases hsymbol

end Front

/-- Where a scan fails, the characters behind all of its tokens are of a form that is no token. -/
theorem Scanner.rejects_behind_tokens {offset : Nat} {previous : Option Char} {text : Text}
    {fault : Fault} (hfault : (scan ⟨offset, previous, text⟩).fault = some fault) :
    let left := Token.join (scan ⟨offset, previous, text⟩).tokens
    ∃ piece right, text = left ++ piece ++ right ∧ piece ≠ [] ∧
      Front.Separate left (piece ++ right) ∧ Front.Rejects fault.cause piece right ∧
      fault.span = .of (offset + Text.bytes left) piece := by
  obtain ⟨right, htext, hseparate, hscan⟩ := exists_rest (List.append_nil _).symm
  rw [hfault] at hscan
  obtain ⟨c, rest, rfl, hread, hspan⟩ := read_of_fault hscan
  rw [← Front.literal_append_rest _ c rest] at htext hseparate
  exact ⟨_, _, htext.trans (List.append_assoc ..).symm, Front.literal_ne_nil _ c rest, hseparate,
    Front.rejects_of_read hread, hspan⟩

/-- Where a scan fails, some of the characters are of a form that is no token. -/
theorem Scanner.exists_rejects {offset : Nat} {previous : Option Char} {text : Text} {fault : Fault}
    (hfault : (scan ⟨offset, previous, text⟩).fault = some fault) :
    ∃ left piece right, text = left ++ piece ++ right ∧ piece ≠ [] ∧
      Front.Separate left (piece ++ right) ∧ Front.Rejects fault.cause piece right ∧
      fault.span = .of (offset + Text.bytes left) piece :=
  ⟨_, rejects_behind_tokens hfault⟩

end Surd
